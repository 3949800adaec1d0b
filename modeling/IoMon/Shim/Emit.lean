/-
# What the Linux shim emits

Every hook of `linux_preload.nim` that observes something builds a record and hands it to
`emitRecord`, which applies the two gates of the request (the interest on the record's kind,
the evidence scope on its result), stamps the run id and publishes.  `ShimEvent` has one
constructor for each shape of record a hook builds; a stream is what the shims of a process tree
publish for a list of events.

The guards that make `emitRecord` publish nothing at all (not initialised, muted, bypassed) decide
which events there are, and are not part of this file.
-/
import IoMon.Detail

namespace IoMon

open ByteText MonitorRecordKind MonitorObservationKind ProbeResult EvidenceScope

/-! ## 1. Events -/

/-- The fields `baseRecord` takes from the caller. -/
structure Origin where
  seq : UInt64 := 0
  osPid : UInt64
  parentOsPid : UInt64 := 0
  threadId : UInt64 := 0
  deriving DecidableEq, Repr

/-- The points at which the loaded objects are enumerated. -/
inductive ScanReason
  | startupClosure | shutdown | preDlopen | dlopen | preDlmopen | dlmopen
  deriving DecidableEq, Repr

def ScanReason.text : ScanReason → NimStr
  | startupClosure => str "startup-closure"
  | shutdown => str "shutdown"
  | preDlopen => str "pre-dlopen"
  | dlopen => str "dlopen"
  | preDlmopen => str "pre-dlmopen"
  | dlmopen => str "dlmopen"

/-- The inputs that are no files. -/
inductive NonFile
  | getenv | sysconf | uname | vdsoGetcpu | time | entropy
  deriving DecidableEq, Repr

def NonFile.kind : NonFile → MonitorRecordKind
  | getenv => mrEnvRead
  | sysconf | uname | vdsoGetcpu => mrSysctlRead
  | time => mrTimeRead
  | entropy => mrNonDeterministic

def NonFile.observationKind : NonFile → MonitorObservationKind
  | getenv => moEnvRead
  | sysconf | uname | vdsoGetcpu => moSysctlRead
  | time => moTimeRead
  | entropy => moNonDeterministic

def NonDeterministicEntropyDetail : NimStr := str "non-deterministic entropy source"

def NonFile.detail : NonFile → NimStr
  | getenv => str "linux getenv"
  | sysconf => str "linux sysconf"
  | uname => str "linux uname"
  | vdsoGetcpu => str "linux vdso getcpu"
  | time => str "linux time"
  | entropy => NonDeterministicEntropyDetail

inductive SocketFamily
  | afUnix | afInet | afOther
  deriving DecidableEq, Repr

def SocketFamily.name : SocketFamily → NimStr
  | afUnix => str "af_unix"
  | afInet => str "af_inet"
  | afOther => str "af_other"

inductive SpawnCall
  | fork | posixSpawn | posixSpawnp
  deriving DecidableEq, Repr

def SpawnCall.detail : SpawnCall → NimStr
  | fork => str "fork"
  | posixSpawn => str "posix_spawn"
  | posixSpawnp => str "posix_spawnp"

/-- What a hook observed. -/
inductive ShimEvent
  | processStart
  | eventLoss (detail : NimStr) (result : Int64)
  | libraryLoad (path : NimStr) (reason : ScanReason)
  | externalContent (chan role path : NimStr) (fd : UInt32) (peerPid : UInt64)
  | fileRead (path detail : NimStr) (result : Int64) (flags : UInt32)
  | fileWrite (path detail : NimStr) (result : Int64) (flags : UInt32)
  | fileOpen (path : NimStr) (flags : UInt32) (fd : Int64)
  | fopen (path : NimStr) (mode : Option NimStr)
  | probe (path : NimStr) (callResult : Int64)
  | readdir (path : NimStr)
  | nonFile (input : NonFile) (path : NimStr)
  | ipcConnect (family : SocketFamily) (peerPid : UInt64) (peerUid : Option UInt64)
      (endpoint : NimStr) (fd : Int64)
  | spawn (call : SpawnCall) (path : NimStr) (child : UInt64) (result : Int64)
  | exec (path : NimStr)
  | execFailed (path : NimStr) (errno : UInt64)
  deriving DecidableEq, Repr

/-! ## 2. The records of an event -/

def OAccMode : UInt32 := 0x0003
def OWrOnly : UInt32 := 0x0001
def ORdWr : UInt32 := 0x0002
def OCreat : UInt32 := 0x0040
def OTrunc : UInt32 := 0x0200
def OAppend : UInt32 := 0x0400

/-- An open that creates, truncates, appends or may write is an output. -/
def observationForOpen (flags : UInt32) : MonitorObservationKind :=
  if flags &&& (OCreat ||| OTrunc ||| OAppend) != 0 then moFileWrite
  else
    let acc := flags &&& OAccMode
    if acc == OWrOnly || acc == ORdWr then moFileWrite else moFileOpen

def probeFromResult (callResult : Int64) : ProbeResult :=
  if callResult == 0 then prExistingOther else prAbsent

/-- A stdio mode that grants reading: none, one that starts with `r`, or one with a `+`. -/
def modeLooksReadable : Option NimStr → Bool
  | none => true
  | some mode => mode.isEmpty || mode.head? == some 114 || mode.contains 43

/-- A stdio mode that grants writing: one that starts with `w` or `a`, or one with a `+`. -/
def modeLooksWritable : Option NimStr → Bool
  | none => false
  | some mode =>
    !mode.isEmpty && (mode.head? == some 119 || mode.head? == some 97 || mode.contains 43)

def baseRecord (o : Origin) (kind : MonitorRecordKind)
    (observationKind : MonitorObservationKind) : MonitorRecord where
  kind := kind
  observationKind := observationKind
  seq := o.seq
  osPid := o.osPid
  parentOsPid := o.parentOsPid
  threadId := o.threadId

/-- A stdio open is recorded on every side its mode grants; an exotic mode is recorded as an
open. -/
def recordFopen (o : Origin) (path : NimStr) (mode : Option NimStr) : List MonitorRecord :=
  let detail := match mode with
    | some m => str "stdio:" ++ m
    | none => []
  let opened := { baseRecord o mrFileOpen moFileOpen with path := path, detail := detail }
  let written := { baseRecord o mrFileWrite moFileWrite with path := path, detail := detail }
  (if modeLooksReadable mode then [opened] else []) ++
    (if modeLooksWritable mode then [written] else []) ++
    (if !modeLooksReadable mode && !modeLooksWritable mode then [opened] else [])

def ShimEvent.records (o : Origin) : ShimEvent → List MonitorRecord
  | processStart =>
    [{ baseRecord o mrProcessStart moProcessStart with detail := str "linux-preload-hooks" }]
  | eventLoss detail result =>
    [{ baseRecord o mrEventLoss moEventLoss with detail := detail, result := result }]
  | libraryLoad path reason =>
    [{ baseRecord o mrLibraryLoad moFileRead with
       path := path, detail := str "library-load dl_iterate_phdr " ++ reason.text }]
  | externalContent chan role path fd peerPid =>
    [{ baseRecord o mrExternalContent moExternalContent with
       path := path, flags := fd, childOsPid := peerPid
       detail := str "chan=" ++ chan ++ str " role=" ++ role ++
        (if peerPid = 0 then [] else str " peer=" ++ decimal peerPid) }]
  | fileRead path detail result flags =>
    [{ baseRecord o mrFileRead moFileRead with
       path := path, detail := detail, result := result, flags := flags }]
  | fileWrite path detail result flags =>
    [{ baseRecord o mrFileWrite moFileWrite with
       path := path, detail := detail, result := result, flags := flags }]
  | fileOpen path flags fd =>
    [{ baseRecord o mrFileOpen (observationForOpen flags) with
       path := path, flags := flags, result := fd }]
  | fopen path mode => recordFopen o path mode
  | probe path callResult =>
    [{ baseRecord o mrPathProbe moPathProbe with
       path := path, result := callResult, probeResult := probeFromResult callResult }]
  | readdir path =>
    [{ baseRecord o mrDirectoryEnumerate moDirectoryEnumerate with
       path := path, result := 1, detail := str "readdir" }]
  | nonFile input path =>
    [{ baseRecord o input.kind input.observationKind with path := path, detail := input.detail }]
  | ipcConnect family peerPid peerUid endpoint fd =>
    [{ baseRecord o mrIpcConnect moIpcConnect with
       childOsPid := peerPid, result := fd, path := endpoint
       detail := str "connect " ++ family.name ++
        (if peerPid = 0 then str " peer=unknown" else str " peer=" ++ decimal peerPid) ++
        (match peerUid with
          | some uid => str " peeruid=" ++ decimal uid
          | none => []) }]
  | spawn call path child result =>
    [{ baseRecord o mrProcessSpawn moExecute with
       childOsPid := child, result := result, path := path, detail := call.detail }]
  | exec path => [{ baseRecord o mrProcessExec moExecute with path := path }]
  | execFailed path errno =>
    [{ baseRecord o mrProcessExec moExecute with
       path := path, result := -errno.toInt64
       detail := str "execstatus=failed errno=" ++ decimal errno }]

/-! ## 3. Publishing -/

/-- A run id as `newRunId` makes it: a single token. -/
structure RunId where
  text : NimStr
  noSpace : ∀ c ∈ text, isSpace c = false

/-- The run id is appended as one more token, unless the detail already has one. -/
def stampRunId (runId : NimStr) (record : MonitorRecord) : MonitorRecord :=
  if runId.isEmpty || !(detailToken record.detail RunIdToken).isEmpty then record
  else
    { record with
      detail := (if record.detail.isEmpty then [] else record.detail ++ str " ") ++
        (str "run=" ++ runId) }

/-- The two gates of `emitRecord`. -/
def recordPublished (interest : Finset EventCategory) (scope : EvidenceScope)
    (record : MonitorRecord) : Bool :=
  recordWanted interest record.kind && recordInEvidenceScope scope record

def emitRecord (interest : Finset EventCategory) (scope : EvidenceScope) (runId : NimStr)
    (record : MonitorRecord) : Option MonitorRecord :=
  if !recordWanted interest record.kind then none
  else if !recordInEvidenceScope scope record then none
  else some (stampRunId runId record)

/-- What the shims of a tree publish for these events. -/
def shimStream (interest : Finset EventCategory) (scope : EvidenceScope) (run : RunId)
    (events : List (Origin × ShimEvent)) : List MonitorRecord :=
  (events.flatMap fun e => e.2.records e.1).filterMap (emitRecord interest scope run.text)

/-- The stream with nothing gated away. -/
def wholeStream (run : RunId) (events : List (Origin × ShimEvent)) : List MonitorRecord :=
  shimStream FullInterest esFull run events

theorem recordFopen_kind {o : Origin} {path : NimStr} {mode : Option NimStr} {r : MonitorRecord}
    (h : r ∈ recordFopen o path mode) : r.kind = mrFileOpen ∨ r.kind = mrFileWrite := by
  simp only [recordFopen, List.mem_append] at h
  rcases h with (h | h) | h <;> split at h
  · exact .inl (by rw [List.mem_singleton.mp h]; rfl)
  · exact absurd h (by simp)
  · exact .inr (by rw [List.mem_singleton.mp h]; rfl)
  · exact absurd h (by simp)
  · exact .inl (by rw [List.mem_singleton.mp h]; rfl)
  · exact absurd h (by simp)

theorem libraryLoad_detail_noEq (reason : ScanReason) :
    (61 : UInt8) ∉ str "library-load dl_iterate_phdr " ++ reason.text := by
  cases reason <;> decide

theorem nonFile_detail_noEq (input : NonFile) : (61 : UInt8) ∉ input.detail := by
  cases input <;> decide

/-! ## 4. The gates commute with the stamp -/

theorem stampRunId_gate (interest : Finset EventCategory) (scope : EvidenceScope) (run : NimStr)
    (r : MonitorRecord) :
    recordPublished interest scope (stampRunId run r) = recordPublished interest scope r := by
  unfold stampRunId
  split <;> rfl

theorem recordPublished_full (r : MonitorRecord) :
    recordPublished FullInterest esFull r = true := by
  have hnorm : normalizeInterest FullInterest = FullInterest := by decide
  simp only [recordPublished, recordWanted, hnorm, mem_FullInterest, recordInEvidenceScope]
  cases categoryOf r.kind <;> rfl

theorem emitRecord_eq (interest : Finset EventCategory) (scope : EvidenceScope) (run : NimStr)
    (r : MonitorRecord) : emitRecord interest scope run r =
      if recordPublished interest scope r then some (stampRunId run r) else none := by
  unfold emitRecord recordPublished
  cases recordWanted interest r.kind <;> cases recordInEvidenceScope scope r <;> rfl

theorem mem_wholeStream {run : RunId} {events : List (Origin × ShimEvent)} {r : MonitorRecord} :
    r ∈ wholeStream run events ↔
      ∃ e ∈ events, ∃ r₀ ∈ e.2.records e.1, stampRunId run.text r₀ = r := by
  simp only [wholeStream, shimStream, List.mem_filterMap, List.mem_flatMap, emitRecord_eq,
    recordPublished_full, if_true, Option.some.injEq]
  constructor
  · rintro ⟨r₀, ⟨e, he, hr₀⟩, h⟩
    exact ⟨e, he, r₀, hr₀, h⟩
  · rintro ⟨e, he, r₀, hr₀, h⟩
    exact ⟨r₀, ⟨e, he, hr₀⟩, h⟩

/-- **A narrowed stream is a filter of the whole one.** -/
theorem shimStream_eq_filter (interest : Finset EventCategory) (scope : EvidenceScope)
    (run : RunId) (events : List (Origin × ShimEvent)) :
    shimStream interest scope run events =
      (wholeStream run events).filter (recordPublished interest scope) := by
  rw [wholeStream, shimStream, shimStream, ← List.filterMap_eq_filter, List.filterMap_filterMap]
  refine List.filterMap_congr fun r _ => ?_
  rw [emitRecord_eq, emitRecord_eq, recordPublished_full, if_pos rfl, Option.bind_some,
    Option.guard_eq_ite, stampRunId_gate]

/-! ## 5. Details without tokens

A detail with no `=` holds no token of its own, so after stamping its run id is the shim's and
none of the identity tokens is duplicated. -/

theorem matchingTokens_of_noEq {d key : NimStr} (h : (61 : UInt8) ∉ d) :
    matchingTokens d key = [] := by
  rw [matchingTokens, if_neg]
  simpa [detailHasTokenSyntax] using h

/-- The stamp is a single token. -/
theorem matchingTokens_stampToken (run : RunId) (hrun : run.text ≠ []) (key : NimStr) :
    matchingTokens (str "run=" ++ run.text) key =
      if tokenStartsWith (key ++ str "=") (str "run=" ++ run.text) then [str "run=" ++ run.text]
      else [] := by
  have hspace : ∀ c ∈ str "run=" ++ run.text, isSpace c = false := by
    intro c hc
    rcases List.mem_append.mp hc with hc | hc
    · have : ∀ c ∈ str "run=", isSpace c = false := by decide +kernel
      exact this c hc
    · exact run.noSpace c hc
  have hne : str "run=" ++ run.text ≠ [] := by simp [hrun]
  rw [matchingTokens_eq_filter, tokens_of_noSpace hspace hne, List.filter_singleton]
  cases tokenStartsWith (key ++ str "=") (str "run=" ++ run.text) <;> rfl

/-- It is a run token. -/
theorem stampToken_isRun {run : RunId} (hrun : run.text ≠ []) :
    tokenStartsWith (RunIdToken ++ str "=") (str "run=" ++ run.text) = true := by
  have hlit : RunIdToken ++ str "=" = str "run=" := by decide
  have hpos : 0 < run.text.length := List.length_pos_iff.mpr hrun
  rw [hlit, tokenStartsWith, Bool.and_eq_true, decide_eq_true_eq, List.length_append]
  exact ⟨by omega, List.isPrefixOf_iff_prefix.mpr (List.prefix_append _ _)⟩

/-- A detail without a run token keeps its tokens and gets the stamp behind them. -/
theorem matchingTokens_stamp_append {run : RunId} {r : MonitorRecord}
    (hfree : detailToken r.detail RunIdToken = []) (hrun : run.text ≠ []) (key : NimStr) :
    matchingTokens (stampRunId run.text r).detail key =
      matchingTokens r.detail key ++ matchingTokens (str "run=" ++ run.text) key := by
  rw [stampRunId, if_neg (by simp [hrun, hfree])]
  by_cases hd : r.detail = []
  · simp only [hd, List.isEmpty_nil, if_true, List.nil_append]
    rw [matchingTokens_eq_filter [], tokens, tokensFrom]
    rfl
  · have hspace : str " " = [32] := by decide
    have hne : r.detail.isEmpty = false := by simpa using hd
    simp only [hne, Bool.false_eq_true, if_false, hspace, List.append_assoc,
      List.singleton_append]
    rw [matchingTokens_append_space (by decide)]

/-- The tokens of a stamped detail are those of the stamp. -/
theorem matchingTokens_stamp {run : RunId} {r : MonitorRecord} (h : (61 : UInt8) ∉ r.detail)
    (hrun : run.text ≠ []) (key : NimStr) :
    matchingTokens (stampRunId run.text r).detail key =
      if tokenStartsWith (key ++ str "=") (str "run=" ++ run.text) then [str "run=" ++ run.text]
      else [] := by
  have hfree : detailToken r.detail RunIdToken = [] := by
    rw [detailToken, matchingTokens_of_noEq h]
  rw [matchingTokens_stamp_append hfree hrun, matchingTokens_of_noEq h, List.nil_append,
    matchingTokens_stampToken run hrun]

theorem matchingTokens_stamp_length (run : RunId) {r : MonitorRecord}
    (h : (61 : UInt8) ∉ r.detail) (key : NimStr) :
    (matchingTokens (stampRunId run.text r).detail key).length ≤ 1 := by
  by_cases hrun : run.text = []
  · rw [stampRunId, if_pos (by simp [hrun]), matchingTokens_of_noEq h]
    simp
  · rw [matchingTokens_stamp h hrun]
    split <;> simp

/-- **No identity token is ambiguous.** -/
theorem noDuplicate_stamp {run : RunId} {r : MonitorRecord} (h : (61 : UInt8) ∉ r.detail) :
    hasDuplicateIdentityToken (stampRunId run.text r).detail = false := by
  have hone : ∀ key, detailTokenDuplicate (stampRunId run.text r).detail key = false := by
    intro key
    have := matchingTokens_stamp_length run h key
    simp only [detailTokenDuplicate, decide_eq_false_iff_not]
    omega
  simp only [hasDuplicateIdentityToken, List.any_cons, List.any_nil, hone, Bool.or_self]

/-- **The run id is the shim's.** -/
theorem runId_stamp {run : RunId} {r : MonitorRecord} (h : (61 : UInt8) ∉ r.detail) :
    trustedDetailToken (stampRunId run.text r).detail RunIdToken = run.text := by
  have hdup : detailTokenDuplicate (stampRunId run.text r).detail RunIdToken = false := by
    have := matchingTokens_stamp_length run h RunIdToken
    simp only [detailTokenDuplicate, decide_eq_false_iff_not]
    omega
  rw [trustedDetailToken, hdup, if_neg (by simp), detailToken]
  by_cases hrun : run.text = []
  · rw [stampRunId, if_pos (by simp [hrun]), matchingTokens_of_noEq h, hrun]
  · have hlen : (str "run=").length = 4 := by decide
    rw [matchingTokens_stamp h hrun, if_pos (stampToken_isRun hrun)]
    exact List.drop_left' hlen

end IoMon
