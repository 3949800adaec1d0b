/-
# Stamping and disowning

`stampRunId` puts the run id of the invocation on every record the shim publishes, except on one
whose detail already has a `run=` token; `dropStaleRunRecords` drops, without a trace, every record
whose only `run=` token names another run.  Most details are the shim's own text.  The detail of a
stdio record is not: it embeds the mode string of the monitored program's `fopen`.

  * `staleAction_stamp` -- what the merge does with a stamped record depends on the detail it had
    before the stamp, and on nothing else in the directory;
  * `stamped_keptOrLost_iff` -- when a stamped record is kept or leaves a loss.
-/
import IoMon.Merge.Scope
import IoMon.Shim.Emit

namespace IoMon

open ByteText MonitorRecordKind MonitorObservationKind

/-! ## 1. Tokens of a stamped detail -/

/-- A matching token has a value. -/
theorem detailToken_eq_nil {d key : NimStr} :
    detailToken d key = [] ↔ matchingTokens d key = [] := by
  constructor
  · intro h
    unfold detailToken at h
    cases hm : matchingTokens d key with
    | nil => rfl
    | cons tok rest =>
      rw [hm] at h
      have hmem : tok ∈ matchingTokens d key := hm ▸ List.mem_cons_self ..
      rw [matchingTokens_eq_filter, List.mem_filter, tokenStartsWith, Bool.and_eq_true,
        decide_eq_true_eq, List.length_append] at hmem
      have hdrop := congrArg List.length h
      have heq : (str "=").length = 1 := by decide
      rw [List.length_drop, List.length_nil] at hdrop
      omega
  · intro h
    rw [detailToken, h]

/-- The stamp is no other identity token. -/
theorem stampToken_only_run {key : NimStr} (hkey : (key ++ str "=").head? ≠ some 114)
    (hne : key ≠ []) (text : NimStr) :
    tokenStartsWith (key ++ str "=") (str "run=" ++ text) = false := by
  cases key with
  | nil => exact absurd rfl hne
  | cons c k =>
    have hc : (c == 114) = false := by
      simpa using hkey
    have hlit : str "run=" ++ text = 114 :: ([117, 110, 61] ++ text) := rfl
    rw [tokenStartsWith, hlit, List.cons_append, List.isPrefixOf_cons_cons, hc, Bool.false_and,
      Bool.and_false]

section Stamped

variable {run : RunId} (hrun : run.text ≠ []) {r : MonitorRecord}
  (hfree : detailToken r.detail RunIdToken = [])

include hrun hfree

theorem detailTokenDuplicate_stamp_run :
    detailTokenDuplicate (stampRunId run.text r).detail RunIdToken = false := by
  rw [detailTokenDuplicate, matchingTokens_stamp_append hfree hrun, detailToken_eq_nil.mp hfree,
    matchingTokens_stampToken run hrun, if_pos (stampToken_isRun hrun)]
  rfl

theorem detailTokenDuplicate_stamp_other {key : NimStr}
    (hkey : (key ++ str "=").head? ≠ some 114) (hne : key ≠ []) :
    detailTokenDuplicate (stampRunId run.text r).detail key =
      detailTokenDuplicate r.detail key := by
  rw [detailTokenDuplicate, detailTokenDuplicate, matchingTokens_stamp_append hfree hrun,
    matchingTokens_stampToken run hrun, stampToken_only_run hkey hne]
  simp

/-- The stamp makes no identity token ambiguous and resolves no ambiguity. -/
theorem hasDuplicateIdentityToken_stamp :
    hasDuplicateIdentityToken (stampRunId run.text r).detail =
      hasDuplicateIdentityToken r.detail := by
  have hrunToken : detailTokenDuplicate r.detail RunIdToken = false := by
    rw [detailTokenDuplicate, detailToken_eq_nil.mp hfree]
    rfl
  simp only [hasDuplicateIdentityToken, List.any_cons, List.any_nil,
    detailTokenDuplicate_stamp_run hrun hfree, hrunToken]
  rw [detailTokenDuplicate_stamp_other hrun hfree (by decide) (by decide),
    detailTokenDuplicate_stamp_other hrun hfree (by decide) (by decide),
    detailTokenDuplicate_stamp_other hrun hfree (by decide) (by decide),
    detailTokenDuplicate_stamp_other hrun hfree (by decide) (by decide)]

theorem trustedRun_stamp :
    trustedDetailToken (stampRunId run.text r).detail RunIdToken = run.text := by
  have hlen : (str "run=").length = 4 := by decide
  rw [trustedDetailToken, detailTokenDuplicate_stamp_run hrun hfree, if_neg Bool.false_ne_true,
    detailToken, matchingTokens_stamp_append hfree hrun, detailToken_eq_nil.mp hfree,
    matchingTokens_stampToken run hrun, if_pos (stampToken_isRun hrun)]
  exact List.drop_left' hlen

end Stamped

/-! ## 2. What the merge does with a stamped record -/

/-- **The fate of a stamped record** is decided by the detail the hook gave it: a duplicated
identity token becomes a loss, no run token or the run's own is kept, another run's is dropped. -/
theorem staleAction_stamp {run : RunId} (hrun : run.text ≠ []) (records : List MonitorRecord)
    (r : MonitorRecord) :
    staleAction records run.text (stampRunId run.text r) =
      if hasDuplicateIdentityToken r.detail then .duplicateIdentity
      else if detailToken r.detail RunIdToken = [] ∨ detailToken r.detail RunIdToken = run.text then
        .keep
      else .drop := by
  have hcur : run.text.isEmpty = false := by simpa using hrun
  by_cases hfree : detailToken r.detail RunIdToken = []
  · rw [staleAction, hasDuplicateIdentityToken_stamp hrun hfree, trustedRun_stamp hrun hfree]
    simp only [hcur, hfree, true_or, if_true, Bool.false_eq_true, if_false, Bool.not_false, ne_eq,
      not_true_eq_false]
  · have hsame : stampRunId run.text r = r := by
      rw [stampRunId, if_pos]
      simp [hfree]
    rw [hsame, staleAction_of_named hrun records hfree]
    simp only [hfree, false_or]

/-! ## 3. Kept, or a loss -/

/-- The record is in the output, or the output holds the loss that stands for it. -/
def KeptOrLost (records : List MonitorRecord) (run : NimStr) (r : MonitorRecord) : Prop :=
  r ∈ staleKept records run ∨
    ∃ loss ∈ staleLosses records run, loss.kind = mrEventLoss ∧ loss.osPid = r.osPid

theorem keptOrLost_of_keep {records : List MonitorRecord} {run : NimStr} {r : MonitorRecord}
    (hr : r ∈ records) (h : staleAction records run r = .keep) : KeptOrLost records run r :=
  .inl (mem_staleKept.mpr ⟨hr, h⟩)

theorem keptOrLost_of_duplicate {records : List MonitorRecord} {run : NimStr} {r : MonitorRecord}
    (hr : r ∈ records) (h : staleAction records run r = .duplicateIdentity) :
    KeptOrLost records run r := by
  refine .inr ⟨{ lossRecord (duplicateIdentityLossDetail run) with osPid := r.osPid }, ?_, rfl, rfl⟩
  refine List.mem_append_right _ (List.mem_map.mpr ⟨r.osPid, ?_, rfl⟩)
  rw [staleLossPids, List.mem_dedup]
  exact List.mem_map.mpr ⟨r, List.mem_filter.mpr ⟨hr, by rw [h]; rfl⟩, rfl⟩

/-- Alone in the directory, a dropped record leaves nothing behind. -/
theorem not_keptOrLost_of_drop {run : NimStr} {r : MonitorRecord}
    (h : staleAction [r] run r = .drop) : ¬ KeptOrLost [r] run r := by
  rintro (hkept | ⟨loss, hloss, _⟩)
  · rw [mem_staleKept, h] at hkept
    exact absurd hkept.2 (by decide)
  · have hnone : staleLosses [r] run = [] := by
      refine staleLosses_eq_nil.mpr fun r' hr' => .inr ?_
      rw [List.mem_singleton.mp hr', h]
    rw [hnone] at hloss
    exact absurd hloss List.not_mem_nil

/-- **When a record of the run cannot be disowned.**  Wherever it ends up, the stamped record is
kept or leaves a loss if and only if its detail carries no run token, carries the run's own, or
carries some identity token twice. -/
theorem stamped_keptOrLost_iff (run : RunId) (hrun : run.text ≠ []) (r : MonitorRecord) :
    (∀ records, stampRunId run.text r ∈ records →
        KeptOrLost records run.text (stampRunId run.text r)) ↔
      hasDuplicateIdentityToken r.detail = true ∨ detailToken r.detail RunIdToken = [] ∨
        detailToken r.detail RunIdToken = run.text := by
  constructor
  · intro h
    by_contra hno
    rw [not_or] at hno
    have hdrop : staleAction [stampRunId run.text r] run.text (stampRunId run.text r) = .drop := by
      rw [staleAction_stamp hrun, if_neg hno.1, if_neg hno.2]
    exact not_keptOrLost_of_drop hdrop (h _ (List.mem_singleton_self _))
  · intro h records hmem
    by_cases hdup : hasDuplicateIdentityToken r.detail = true
    · refine keptOrLost_of_duplicate hmem ?_
      rw [staleAction_stamp hrun, if_pos hdup]
    · refine keptOrLost_of_keep hmem ?_
      rw [staleAction_stamp hrun, if_neg hdup, if_pos (h.resolve_left hdup)]

theorem sampleRun_noSpace : ∀ c ∈ str "9f3a", isSpace c = false := by
  decide +kernel

/-- A run id as the host makes them. -/
def sampleRun : RunId := ⟨str "9f3a", sampleRun_noSpace⟩

/-- A process of the run opens a file through stdio, with a mode of its own choosing. -/
def stdioOpen (mode : String) : Origin × ShimEvent :=
  (⟨1, 7, 1, 7⟩, .fopen (str "/etc/hosts") (some (str mode)))

/-- What `recordFopen` makes of such an open when the mode only reads. -/
def stdioOpenRecord (mode : String) : MonitorRecord :=
  { baseRecord ⟨1, 7, 1, 7⟩ mrFileOpen moFileOpen with
    path := str "/etc/hosts", detail := str "stdio:" ++ str mode }

/-- An open with the mode `r` is kept wherever it ends up. -/
theorem stamped_keptOrLost_iff_plainMode :
    stdioOpenRecord "r" ∈ (stdioOpen "r").2.records (stdioOpen "r").1 ∧
      ∀ records, stampRunId sampleRun.text (stdioOpenRecord "r") ∈ records →
        KeptOrLost records sampleRun.text (stampRunId sampleRun.text (stdioOpenRecord "r")) :=
  ⟨by decide +kernel, (stamped_keptOrLost_iff sampleRun (by decide +kernel) _).mpr
    (.inr (.inl (by decide +kernel)))⟩

/-- **A mode string disowns its own record.**  The program opens the file with the mode
`r run=x`; the shim publishes one record, and the merge of the same run returns nothing. -/
theorem fopen_mode_disowns_record :
    (wholeStream sampleRun [stdioOpen "r run=x"]).length = 1 ∧
      dropStaleRunRecords (wholeStream sampleRun [stdioOpen "r run=x"]) sampleRun.text = [] := by
  decide +kernel

end IoMon
