/-
# Run scoping and folding: the first two passes of the merge

A fragment directory can be reused, so before any completeness reasoning the merge drops the
records that belong to another run (`dropStaleRunRecords`).  A record stamped with a run id
speaks for itself; an unstamped one is scoped through the run ids that the process-starts of its
pid carry.  What cannot be decided is turned into event loss: a record with a duplicated
identity token, and an unstamped record of a pid that several runs used.

`foldObservationIdentity` then keeps one record per distinct element key for the fact-scoped
kinds.  Later passes read nothing of those records but kind, observation kind, path and detail,
and all four survive the fold (`foldObservationIdentity_sound`, `foldObservationIdentity_keeps`).
-/
import IoMon.Lib.Keyed
import IoMon.Detail
import IoMon.DepCodec

namespace IoMon

open ByteText Keyed MonitorRecordKind MonitorObservationKind

/-! ## 1. Stale-run dropping -/

/-- A synthetic event-loss record. -/
def lossRecord (detail : NimStr) : MonitorRecord where
  kind := mrEventLoss
  observationKind := moEventLoss
  detail := detail

/-- `fragmentRunIds` at one pid: the distinct run ids of its unambiguous process-starts. -/
def fragmentRunIds (records : List MonitorRecord) (pid : UInt64) : List NimStr :=
  (((records.filter fun r => r.kind == mrProcessStart && r.osPid == pid &&
      !hasDuplicateIdentityToken r.detail).map fun r =>
    trustedDetailToken r.detail RunIdToken).filter fun run => !run.isEmpty).dedup

/-- What `dropStaleRunRecords` does with one record. -/
inductive StaleAction
  | keep | drop | ambiguous | duplicateIdentity
  deriving DecidableEq, Repr

/-- The body of the loop.  With no current run id only duplicated identity tokens matter. -/
def staleAction (records : List MonitorRecord) (currentRunId : NimStr) (r : MonitorRecord) :
    StaleAction :=
  if hasDuplicateIdentityToken r.detail then .duplicateIdentity
  else if currentRunId.isEmpty then .keep
  else
    let recordRun := trustedDetailToken r.detail RunIdToken
    if !recordRun.isEmpty then
      if recordRun ≠ currentRunId then .drop else .keep
    else
      let pidRuns := fragmentRunIds records r.osPid
      if r.osPid ≠ 0 ∧ pidRuns ≠ [] then
        if currentRunId ∉ pidRuns then .drop
        else if pidRuns.length > 1 then .ambiguous
        else .keep
      else .keep

/-- The pids of the records that got this action, each once. -/
def staleLossPids (records : List MonitorRecord) (currentRunId : NimStr) (a : StaleAction) :
    List UInt64 :=
  ((records.filter fun r => staleAction records currentRunId r == a).map (·.osPid)).dedup

def ambiguousLossDetail (currentRunId : NimStr) : NimStr :=
  str "ambiguous unstamped fragment record for reused pid in run " ++ currentRunId

def duplicateIdentityLossDetail (currentRunId : NimStr) : NimStr :=
  if currentRunId.isEmpty then str "duplicate identity token in fragment record"
  else str "duplicate identity token in fragment record for run " ++ currentRunId

/-- The records that survive. -/
def staleKept (records : List MonitorRecord) (currentRunId : NimStr) : List MonitorRecord :=
  records.filter fun r => staleAction records currentRunId r == .keep

/-- The event losses that stand for the undecidable ones. -/
def staleLosses (records : List MonitorRecord) (currentRunId : NimStr) : List MonitorRecord :=
  ((staleLossPids records currentRunId .ambiguous).map fun pid =>
      { lossRecord (ambiguousLossDetail currentRunId) with osPid := pid }) ++
    ((staleLossPids records currentRunId .duplicateIdentity).map fun pid =>
      { lossRecord (duplicateIdentityLossDetail currentRunId) with osPid := pid })

def dropStaleRunRecords (records : List MonitorRecord) (currentRunId : NimStr) :
    List MonitorRecord :=
  staleKept records currentRunId ++ staleLosses records currentRunId

/-- Where no identity token occurs twice, the run token is trusted as it is read. -/
theorem trustedRun_of_unambiguous {d : NimStr} (h : hasDuplicateIdentityToken d = false) :
    trustedDetailToken d RunIdToken = detailToken d RunIdToken := by
  simp only [hasDuplicateIdentityToken, List.any_cons, Bool.or_eq_false_iff] at h
  rw [trustedDetailToken, h.1, if_neg Bool.false_ne_true]

/-- A record that names a run is judged by its own detail alone. -/
theorem staleAction_of_named {run : NimStr} (hrun : run ≠ []) (records : List MonitorRecord)
    {r : MonitorRecord} (hnamed : detailToken r.detail RunIdToken ≠ []) :
    staleAction records run r =
      if hasDuplicateIdentityToken r.detail then .duplicateIdentity
      else if detailToken r.detail RunIdToken = run then .keep else .drop := by
  have hcur : run.isEmpty = false := by simpa using hrun
  have hval : (detailToken r.detail RunIdToken).isEmpty = false := by simpa using hnamed
  unfold staleAction
  cases hdup : hasDuplicateIdentityToken r.detail with
  | true => rfl
  | false =>
    simp only [trustedRun_of_unambiguous hdup, hcur, hval, Bool.false_eq_true, if_false,
      Bool.not_false, if_true]
    by_cases heq : detailToken r.detail RunIdToken = run
    · rw [if_neg (not_not.mpr heq), if_pos heq]
    · rw [if_pos heq, if_neg heq]

theorem mem_staleKept {records : List MonitorRecord} {run : NimStr} {r : MonitorRecord} :
    r ∈ staleKept records run ↔ r ∈ records ∧ staleAction records run r = .keep := by
  simp only [staleKept, List.mem_filter, beq_iff_eq]

theorem staleLossPids_eq_nil {records : List MonitorRecord} {run : NimStr} {a : StaleAction} :
    staleLossPids records run a = [] ↔ ∀ r ∈ records, staleAction records run r ≠ a := by
  simp only [staleLossPids, List.dedup_eq_nil, List.map_eq_nil_iff, List.filter_eq_nil_iff,
    beq_iff_eq, ne_eq]

/-- No loss was added exactly when every record could be decided. -/
theorem staleLosses_eq_nil {records : List MonitorRecord} {run : NimStr} :
    staleLosses records run = [] ↔ ∀ r ∈ records,
      staleAction records run r = .keep ∨ staleAction records run r = .drop := by
  simp only [staleLosses, List.append_eq_nil_iff, List.map_eq_nil_iff, staleLossPids_eq_nil]
  constructor
  · rintro ⟨ha, hd⟩ r hr
    have h1 := ha r hr
    have h2 := hd r hr
    cases h : staleAction records run r with
    | keep => exact .inl rfl
    | drop => exact .inr rfl
    | ambiguous => exact absurd h h1
    | duplicateIdentity => exact absurd h h2
  · intro h
    refine ⟨fun r hr e => ?_, fun r hr e => ?_⟩ <;> rcases h r hr with h | h <;>
      rw [h] at e <;> exact absurd e (by simp)

theorem staleLosses_kind {records : List MonitorRecord} {run : NimStr} {r : MonitorRecord}
    (h : r ∈ staleLosses records run) : r.kind = mrEventLoss ∧ r.observationKind = moEventLoss := by
  rcases List.mem_append.mp h with h | h <;> obtain ⟨pid, _, rfl⟩ := List.mem_map.mp h <;>
    exact ⟨rfl, rfl⟩

/-! ## 2. Folding the fact-scoped observations -/

/-- The element key of a fact-scoped record, in a buffer sized for it; a buffer length is an
`int`, so a record that would need more is unframable.  These kinds carry no image string. -/
def foldKey (r : MonitorRecord) : Option (List UInt8) :=
  let need := RecordFixedHeaderLen + 20 + r.path.length + r.detail.length
  if need < 2 ^ 63 then encodeDepSetElement [] r need .dseRequireFit else none

/-- A fact-scoped record with its key. -/
def keyedFact (r : MonitorRecord) : Option (List UInt8 × MonitorRecord) :=
  if depIdentityKeepsIncarnation r.kind then none else (foldKey r).map fun key => (key, r)

/-- The distinct keys of the fact-scoped records, each with the first record that had it. -/
def firstSeen (records : List MonitorRecord) : List (List UInt8 × MonitorRecord) :=
  firstPerKey (records.filterMap keyedFact)

/-- What a key contributes to the output. -/
def foldedRecord (p : List UInt8 × MonitorRecord) : MonitorRecord :=
  match decodeDepRecord p.1 with
  | .ok (some decoded) => decoded
  | _ => p.2

/-- One record per distinct key of the fact-scoped kinds, in key order, behind all others. -/
def foldObservationIdentity (records : List MonitorRecord) : List MonitorRecord :=
  (records.filter fun r => depIdentityKeepsIncarnation r.kind || (foldKey r).isNone) ++
    ((firstSeen records).insertionSort fun p q => leStr p.1 q.1 = true).map foldedRecord

/-- The two records agree on everything a later pass reads of a fact-scoped record. -/
def SameContent (r r' : MonitorRecord) : Prop :=
  r.kind = r'.kind ∧ r.observationKind = r'.observationKind ∧ r.path = r'.path ∧
    r.detail = r'.detail

theorem SameContent.refl (r : MonitorRecord) : SameContent r r := ⟨rfl, rfl, rfl, rfl⟩

theorem SameContent.identityRecord (r : MonitorRecord) : SameContent (identityRecord r) r :=
  ⟨identityRecord_kind r, identityRecord_observationKind r, identityRecord_path r,
    identityRecord_detail r⟩

theorem decode_foldKey {r : MonitorRecord} {key : List UInt8} (h : foldKey r = some key) :
    decodeDepRecord key = .ok (some (identityRecord r)) := by
  unfold foldKey at h
  dsimp only at h
  split at h
  · rename_i hneed
    exact decode_encodeDepSetElement hneed h
  · exact absurd h (by simp)

theorem keyedFact_eq_some {r : MonitorRecord} {p : List UInt8 × MonitorRecord} :
    keyedFact r = some p ↔
      depIdentityKeepsIncarnation r.kind = false ∧ foldKey r = some p.1 ∧ p.2 = r := by
  unfold keyedFact
  by_cases hk : depIdentityKeepsIncarnation r.kind = true
  · simp [hk]
  · rw [if_neg hk, Option.map_eq_some_iff]
    constructor
    · rintro ⟨key, hkey, rfl⟩
      exact ⟨by simpa using hk, hkey, rfl⟩
    · rintro ⟨_, hkey, rfl⟩
      exact ⟨p.1, hkey, rfl⟩

theorem mem_firstSeen {records : List MonitorRecord} {p : List UInt8 × MonitorRecord}
    (h : p ∈ firstSeen records) : p.2 ∈ records ∧ depIdentityKeepsIncarnation p.2.kind = false ∧
      foldKey p.2 = some p.1 := by
  obtain ⟨r, hr, hk⟩ := List.mem_filterMap.mp (mem_of_mem_firstPerKey h)
  obtain ⟨hkeep, hkey, hp⟩ := keyedFact_eq_some.mp hk
  exact hp ▸ ⟨hr, hkeep, hkey⟩

/-- Every folded record's key is present. -/
theorem firstSeen_covers {records : List MonitorRecord} {r : MonitorRecord} {key : List UInt8}
    (h : r ∈ records) (hkeep : depIdentityKeepsIncarnation r.kind = false)
    (hkey : foldKey r = some key) : ∃ p ∈ firstSeen records, p.1 = key :=
  exists_mem_firstPerKey (p := (key, r))
    (List.mem_filterMap.mpr ⟨r, h, keyedFact_eq_some.mpr ⟨hkeep, hkey, rfl⟩⟩)

theorem foldedRecord_eq {records : List MonitorRecord} {p : List UInt8 × MonitorRecord}
    (h : p ∈ firstSeen records) : foldedRecord p = identityRecord p.2 := by
  simp only [foldedRecord, decode_foldKey (mem_firstSeen h).2.2]

/-- **The fold invents nothing**: every output record has the content of an input record, and is
that record unless its kind is fact-scoped. -/
theorem foldObservationIdentity_sound {records : List MonitorRecord} {r : MonitorRecord}
    (h : r ∈ foldObservationIdentity records) :
    ∃ r₀ ∈ records, SameContent r r₀ ∧ (depIdentityKeepsIncarnation r.kind = true → r = r₀) := by
  rcases List.mem_append.mp h with h | h
  · exact ⟨r, (List.mem_filter.mp h).1, SameContent.refl r, fun _ => rfl⟩
  · obtain ⟨p, hp, rfl⟩ := List.mem_map.mp h
    have hp := (List.mem_insertionSort _).mp hp
    rw [foldedRecord_eq hp]
    refine ⟨p.2, (mem_firstSeen hp).1, SameContent.identityRecord p.2, fun hk => ?_⟩
    rw [identityRecord_kind, (mem_firstSeen hp).2.1] at hk
    exact absurd hk (by simp)

/-- **The fold loses nothing**: every input record is there, or a record with its content is. -/
theorem foldObservationIdentity_keeps {records : List MonitorRecord} {r₀ : MonitorRecord}
    (h : r₀ ∈ records) :
    ∃ r ∈ foldObservationIdentity records, SameContent r r₀ ∧
      (depIdentityKeepsIncarnation r₀.kind = true → r = r₀) := by
  by_cases hkeep : depIdentityKeepsIncarnation r₀.kind = true
  · exact ⟨r₀, List.mem_append_left _ (List.mem_filter.mpr ⟨h, by simp [hkeep]⟩),
      SameContent.refl r₀, fun _ => rfl⟩
  cases hkey : foldKey r₀ with
  | none =>
    exact ⟨r₀, List.mem_append_left _ (List.mem_filter.mpr ⟨h, by simp [hkey]⟩),
      SameContent.refl r₀, fun _ => rfl⟩
  | some key =>
    obtain ⟨p, hp, hpk⟩ := firstSeen_covers h (by simpa using hkeep) hkey
    have hsame : identityRecord p.2 = identityRecord r₀ := by
      have h1 := decode_foldKey (mem_firstSeen hp).2.2
      have h2 := decode_foldKey hkey
      rw [hpk, h2] at h1
      simpa using h1.symm
    refine ⟨foldedRecord p, List.mem_append_right _ (List.mem_map_of_mem
      ((List.mem_insertionSort _).mpr hp)), ?_, fun hk => absurd hk hkeep⟩
    rw [foldedRecord_eq hp, hsame]
    exact SameContent.identityRecord r₀

/-- Records that are not fact-scoped keep their order as well. -/
theorem filter_foldObservationIdentity {p : MonitorRecord → Bool}
    (h : ∀ r, p r = true → depIdentityKeepsIncarnation r.kind = true)
    (records : List MonitorRecord) :
    (foldObservationIdentity records).filter p = records.filter p := by
  have hfolded : (((firstSeen records).insertionSort fun a b => leStr a.1 b.1 = true).map
      foldedRecord).filter p = [] := by
    rw [List.filter_eq_nil_iff]
    intro r hr hp
    obtain ⟨q, hq, rfl⟩ := List.mem_map.mp hr
    have hq := (List.mem_insertionSort _).mp hq
    have hk := h _ hp
    rw [foldedRecord_eq hq, identityRecord_kind, (mem_firstSeen hq).2.1] at hk
    exact absurd hk (by simp)
  rw [foldObservationIdentity, List.filter_append, hfolded, List.append_nil, List.filter_filter]
  refine List.filter_congr fun r _ => ?_
  cases hp : p r with
  | false => rfl
  | true => rw [h r hp]; rfl

/-- A predicate on the content holds throughout the folded list exactly when it holds throughout
the list. -/
theorem forall_foldObservationIdentity {Q : MonitorRecord → Prop}
    (hQ : ∀ r r', SameContent r r' → (Q r ↔ Q r')) (records : List MonitorRecord) :
    (∀ r ∈ foldObservationIdentity records, Q r) ↔ ∀ r ∈ records, Q r := by
  constructor
  · intro h r₀ hr₀
    obtain ⟨r, hr, hsame, _⟩ := foldObservationIdentity_keeps hr₀
    exact (hQ r r₀ hsame).mp (h r hr)
  · intro h r hr
    obtain ⟨r₀, hr₀, hsame, _⟩ := foldObservationIdentity_sound hr
    exact (hQ r r₀ hsame).mpr (h r₀ hr₀)

end IoMon
