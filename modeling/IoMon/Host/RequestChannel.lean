/-
# From the request to the shim and back

`childEnv` writes what a request asks for into the child's environment, the shim reads it there at
start-up and gates what it records, and the host narrows what came back once more.  A macOS host
that is monitored itself asks for everything, so as to serve its own parent too; it still narrows
what it keeps.

  * `hostKept_treeStream` -- the host ends with the records the request asks for, whichever shim
    each process of the tree carries: one that reads both variables (Linux), one that reads the
    interest alone (macOS), one that reads neither (Windows), or one from before the split;
  * `treeStream_linux` -- under Linux the gates of this build's shim are the request's.
-/
import IoMon.Host.IsolatedEnv
import IoMon.Host.WrittenFile
import IoMon.Shim.Emit

namespace IoMon.RequestChannel

open ByteText NameTable MonitorRecordKind EventCategory EvidenceScope LegacyEventCategory
open Lifecycle (Platform)
open Isolation (FsSnoopRequest HostEnv MonitorRun ControlVar envFold spawnEnv controls
  spawnInterest spawnScope)
open ShimTokens

/-! ## 1. The shim's side -/

/-- How a shim reads `REPRO_MONITOR_INTEREST`. -/
inductive InterestReader
  | current | preSplit | heedless
  deriving DecidableEq, Repr

/-- A shim, as far as the request's two variables go. -/
structure ShimBuild where
  interest : InterestReader
  readsEvidence : Bool
  deriving DecidableEq, Repr

/-- The shim this repository has for the platform: only the Linux one narrows by evidence, and the
Windows one narrows by nothing. -/
def shimOf : Platform → ShimBuild
  | .linux => ⟨.current, true⟩
  | .macosx => ⟨.current, false⟩
  | .windows => ⟨.heedless, false⟩

/-- `getEnv` of the monitored process. -/
def childGetEnv (p : Platform) (env : List (NimStr × NimStr)) (name : NimStr) : NimStr :=
  (lookup (envFold p) env name).getD []

def InterestReader.wants (reader : InterestReader) (value : NimStr) (kind : MonitorRecordKind) :
    Bool :=
  match reader with
  | .current => recordWanted (shimInterestFromEnv value) kind
  | .preSplit => preSplitWanted value kind
  | .heedless => true

/-- The gates of a shim that started in this environment. -/
def ShimBuild.publishes (shim : ShimBuild) (p : Platform) (env : List (NimStr × NimStr))
    (record : MonitorRecord) : Bool :=
  shim.interest.wants (childGetEnv p env ControlVar.interest.name) record.kind &&
    (!shim.readsEvidence ||
      recordInEvidenceScope
        (parseEvidenceScopeToken (childGetEnv p env ControlVar.evidence.name)) record)

/-- What the shims of a tree publish, when each of its processes carries the shim it carries. -/
def treeStream (p : Platform) (env : List (NimStr × NimStr)) (run : RunId)
    (built : List (ShimBuild × MonitorRecord)) : List MonitorRecord :=
  built.filterMap fun b =>
    if b.1.publishes p env b.2 then some (stampRunId run.text b.2) else none

/-- The same records with nothing gated away. -/
def wholeTree (run : RunId) (built : List (ShimBuild × MonitorRecord)) : List MonitorRecord :=
  built.map fun b => stampRunId run.text b.2

/-! ## 2. The tree and the host -/

section Tree

variable {p : Platform} {run : MonitorRun} {request : FsSnoopRequest} {host : HostEnv}

/-- What io-mon sets, the monitored process reads. -/
theorem childGetEnv_control {v : ControlVar} {value : NimStr}
    (h : (v, value) ∈ controls p run request host) :
    childGetEnv p (spawnEnv p run request host) v.name = value := by
  rw [childGetEnv, Isolation.lookup_spawnEnv,
    lookup_of_mem (b := (v, value)) Isolation.oncePerName_controls (List.mem_reverse.mpr h)]
  rfl

theorem childGetEnv_interest : childGetEnv p (spawnEnv p run request host)
    ControlVar.interest.name = interestToShimTokens (spawnInterest p run request host) :=
  childGetEnv_control (List.mem_append_right _ (by simp))

theorem childGetEnv_evidence : childGetEnv p (spawnEnv p run request host)
    ControlVar.evidence.name = evidenceScopeToken (spawnScope p run request host) :=
  childGetEnv_control (List.mem_append_right _ (by simp))

/-- Inside another capture the shims are asked for more, never for less. -/
theorem spawn_asks {record : MonitorRecord}
    (h : recordPublished request.interest request.evidenceScope record = true) :
    recordPublished (spawnInterest p run request host) (spawnScope p run request host) record =
      true := by
  unfold spawnInterest spawnScope
  cases Isolation.insideCapture p run host with
  | false => exact h
  | true =>
    have heverything : ∀ kind, recordWanted FullInterest kind = true := by
      intro kind
      cases kind <;> decide
    rw [if_pos rfl, if_pos rfl, recordPublished, heverything, Bool.true_and]
    rfl

/-- No shim gates away what the request asks for. -/
theorem publishes_of_recordPublished {record : MonitorRecord}
    (h : recordPublished request.interest request.evidenceScope record = true)
    (shim : ShimBuild) : shim.publishes p (spawnEnv p run request host) record = true := by
  obtain ⟨hwanted, hscope⟩ := Bool.and_eq_true_iff.mp (@spawn_asks p run request host record h)
  have hinterest : shim.interest.wants
      (interestToShimTokens (spawnInterest p run request host)) record.kind = true := by
    cases shim.interest with
    | current =>
      simpa only [InterestReader.wants, shimInterestFromEnv_wire, recordWanted,
        normalizeInterest_idem] using hwanted
    | preSplit => exact preSplitWanted_wire hwanted
    | heedless => rfl
  rw [ShimBuild.publishes, childGetEnv_interest, childGetEnv_evidence, hinterest,
    recordInEvidenceScope_wire, hscope, Bool.or_true, Bool.and_self]

/-- A shim of this build that reads both variables gates exactly what it is asked to. -/
theorem publishes_current {record : MonitorRecord} :
    ShimBuild.publishes ⟨.current, true⟩ p (spawnEnv p run request host) record =
      recordPublished (spawnInterest p run request host) (spawnScope p run request host)
        record := by
  simp only [ShimBuild.publishes, childGetEnv_interest, childGetEnv_evidence,
    InterestReader.wants, shimInterestFromEnv_wire, recordInEvidenceScope_wire, recordWanted,
    normalizeInterest_idem, Bool.not_true, Bool.false_or, recordPublished]

/-- **The host ends with what the request asks for**, whichever shim each process carries: it is
what it would keep had no shim gated anything. -/
theorem hostKept_treeStream (id : RunId) (built : List (ShimBuild × MonitorRecord)) :
    hostKept request.interest request.evidenceScope
        (treeStream p (spawnEnv p run request host) id built) =
      hostKept request.interest request.evidenceScope (wholeTree id built) := by
  induction built with
  | nil => rfl
  | cons b built ih =>
    have hkept : ∀ r rs, hostKept request.interest request.evidenceScope (r :: rs) =
        if recordPublished request.interest request.evidenceScope r then
          r :: hostKept request.interest request.evidenceScope rs
        else hostKept request.interest request.evidenceScope rs :=
      fun r rs => List.filter_cons
    rw [wholeTree, List.map_cons, ← wholeTree, hkept, stampRunId_gate, treeStream,
      List.filterMap_cons, ← treeStream]
    by_cases hasked : recordPublished request.interest request.evidenceScope b.2 = true
    · rw [if_pos (publishes_of_recordPublished hasked b.1), if_pos hasked]
      dsimp only
      rw [hkept, stampRunId_gate, if_pos hasked, ih]
    · rw [if_neg hasked, ← ih]
      by_cases hpub : b.1.publishes p (spawnEnv p run request host) b.2 = true
      · rw [if_pos hpub]
        dsimp only
        rw [hkept, stampRunId_gate, if_neg hasked]
      · rw [if_neg hpub]

/-- **Under Linux the gates are the request's**: a tree whose processes all carry the shim of this
build publishes the stream of the request. -/
theorem treeStream_linux (id : RunId) (events : List (Origin × ShimEvent)) :
    treeStream .linux (spawnEnv .linux run request host) id
        ((events.flatMap fun e => e.2.records e.1).map fun r => (shimOf .linux, r)) =
      shimStream request.interest request.evidenceScope id events := by
  rw [treeStream, List.filterMap_map, shimStream]
  refine List.filterMap_congr fun r _ => ?_
  have hgate : (shimOf .linux).publishes .linux (spawnEnv .linux run request host) r =
      recordPublished request.interest request.evidenceScope r := publishes_current
  -- no Linux host starts a nested capture
  rw [emitRecord_eq, ← hgate]
  rfl

end Tree

end IoMon.RequestChannel
