/-
# Separating the runs of a reused directory

A fragment directory that several runs used holds their records mixed.  Every process of every run
left a process-start stamped with its own run id; its other records may be stamped or not.
`dropStaleRunRecords` cannot see which run a record came from, so an unstamped one is judged by the
process-starts of its pid, and a process-start with a duplicated identity token is not among them.

  * `mem_fragmentRunIds_iff`, `staleAction_unstamped` -- what decides an unstamped record;
  * `dropStaleRunRecords_idem_iff` -- the second application changes nothing unless the run id
    itself reads as a `run=` token of the loss texts it is put in;
  * `runsSeparated_iff` -- the exact condition for the runs to be kept apart: another run's
    unstamped record needs a readable process-start of a run that is not the current one.
-/
import IoMon.Shim.RunStamp

namespace IoMon

open ByteText MonitorRecordKind MonitorObservationKind StaleAction

/-! ## 1. Directories of several runs -/

/-- The values a detail's `run=` tokens give. -/
def runValues (detail : NimStr) : List NimStr :=
  (matchingTokens detail RunIdToken).map fun tok => tok.drop (RunIdToken.length + 1)

/-- Records with the run that produced each of them. -/
structure ReusedDirectory where
  entries : List (NimStr × MonitorRecord)
  /-- Every process of every run left a process-start that carries its run id. -/
  started : ∀ e ∈ entries, ∃ s ∈ entries, s.1 = e.1 ∧ s.2.osPid = e.2.osPid ∧
    s.2.kind = mrProcessStart ∧ s.1 ∈ runValues s.2.detail
  /-- A record without a duplicated identity token is stamped with its own run or not at all. -/
  ownStamp : ∀ e ∈ entries, hasDuplicateIdentityToken e.2.detail = false →
    ∀ run ∈ runValues e.2.detail, run = e.1
  pid_ne_zero : ∀ e ∈ entries, e.2.osPid ≠ 0

namespace ReusedDirectory

variable (dir : ReusedDirectory)

def records : List MonitorRecord := dir.entries.map (·.2)

/-- The entries whose records survive. -/
def kept (cur : NimStr) : List (NimStr × MonitorRecord) :=
  dir.entries.filter fun e => staleAction dir.records cur e.2 == keep

/-- A process-start of the pid that can be read: unambiguous, and stamped with this run. -/
def CleanStart (run : NimStr) (pid : UInt64) : Prop :=
  ∃ s ∈ dir.entries, s.1 = run ∧ s.2.osPid = pid ∧ s.2.kind = mrProcessStart ∧
    hasDuplicateIdentityToken s.2.detail = false ∧ run ∈ runValues s.2.detail

end ReusedDirectory

/-- **The runs are kept apart**, with `cur` the current one. -/
structure RunsSeparated (dir : ReusedDirectory) (cur : NimStr) : Prop where
  only_current : ∀ e ∈ dir.kept cur, e.1 = cur
  removed_lossy : ∀ e ∈ dir.entries, e.1 = cur → e ∉ dir.kept cur →
    ∃ l ∈ dropStaleRunRecords dir.records cur, l.kind = mrEventLoss ∧ l.osPid = e.2.osPid
  kept_unchanged : ∃ losses, dropStaleRunRecords dir.records cur =
    (dir.kept cur).map (·.2) ++ losses ∧ ∀ l ∈ losses, l.kind = mrEventLoss
  idempotent : dropStaleRunRecords (dropStaleRunRecords dir.records cur) cur =
    dropStaleRunRecords dir.records cur

/-! ## 2. Run tokens -/

theorem runValue_ne_nil {d run : NimStr} (h : run ∈ runValues d) : run ≠ [] := by
  obtain ⟨tok, htok, rfl⟩ := List.mem_map.mp h
  rw [matchingTokens_eq_filter, List.mem_filter, tokenStartsWith, Bool.and_eq_true,
    decide_eq_true_eq, List.length_append] at htok
  have heq : (str "=").length = 1 := by decide
  intro hnil
  have hlen := congrArg List.length hnil
  rw [List.length_drop, List.length_nil] at hlen
  omega

/-- Where no identity token occurs twice there is at most one run value, and it is the trusted
one. -/
theorem trustedRun_cases {d : NimStr} (h : hasDuplicateIdentityToken d = false) :
    (runValues d = [] ∧ trustedDetailToken d RunIdToken = []) ∨
      ∃ run, runValues d = [run] ∧ trustedDetailToken d RunIdToken = run ∧ run ≠ [] := by
  have hone : detailTokenDuplicate d RunIdToken = false := by
    simp only [hasDuplicateIdentityToken, List.any_cons, Bool.or_eq_false_iff] at h
    exact h.1
  rw [trustedRun_of_unambiguous h, detailToken]
  rw [detailTokenDuplicate, decide_eq_false_iff_not] at hone
  cases hm : matchingTokens d RunIdToken with
  | nil => exact .inl ⟨by rw [runValues, hm]; rfl, rfl⟩
  | cons tok rest =>
    have hnil : rest = [] := by
      rw [hm, List.length_cons] at hone
      exact List.eq_nil_of_length_eq_zero (by omega)
    have hvalues : runValues d = [tok.drop (RunIdToken.length + 1)] := by
      rw [runValues, hm, hnil]
      rfl
    exact .inr ⟨_, hvalues, rfl, runValue_ne_nil (hvalues ▸ List.mem_singleton.mpr rfl)⟩

theorem mem_runValues_iff {d run : NimStr} (h : hasDuplicateIdentityToken d = false) :
    run ∈ runValues d ↔ trustedDetailToken d RunIdToken = run ∧ run ≠ [] := by
  rcases trustedRun_cases h with ⟨hvalues, htrusted⟩ | ⟨v, hvalues, htrusted, hne⟩
  · rw [hvalues, htrusted]
    exact iff_of_false List.not_mem_nil fun ⟨hrun, hrun'⟩ => hrun' hrun.symm
  · rw [hvalues, htrusted, List.mem_singleton]
    constructor
    · rintro rfl
      exact ⟨rfl, hne⟩
    · exact fun hrun => hrun.1.symm

/-! ## 3. What happens to a record -/

section OneRecord

variable (records : List MonitorRecord) {cur : NimStr} (hcur : cur ≠ []) {r : MonitorRecord}

theorem staleAction_duplicate (hdup : hasDuplicateIdentityToken r.detail = true) :
    staleAction records cur r = duplicateIdentity := if_pos hdup

include hcur

/-- A stamp that can be read decides alone. -/
theorem staleAction_of_stamp {run : NimStr} (hdup : hasDuplicateIdentityToken r.detail = false)
    (hrun : run ∈ runValues r.detail) :
    staleAction records cur r = if run = cur then keep else drop := by
  obtain ⟨htrusted, hne⟩ := (mem_runValues_iff hdup).mp hrun
  rw [trustedRun_of_unambiguous hdup] at htrusted
  subst htrusted
  rw [staleAction_of_named hcur records hne, hdup, if_neg Bool.false_ne_true]

/-- Without a stamp, the process-starts of the pid decide. -/
theorem staleAction_unstamped (hdup : hasDuplicateIdentityToken r.detail = false)
    (hrun : runValues r.detail = []) :
    staleAction records cur r =
      if r.osPid ≠ 0 ∧ ∃ run ∈ fragmentRunIds records r.osPid, run ≠ cur then
        if cur ∈ fragmentRunIds records r.osPid then ambiguous else drop
      else keep := by
  have htrusted : trustedDetailToken r.detail RunIdToken = [] := by
    rcases trustedRun_cases hdup with h | ⟨v, hvalues, _⟩
    · exact h.2
    · rw [hvalues] at hrun
      exact absurd hrun (by simp)
  have hempty : cur.isEmpty = false := by simpa using hcur
  have hnodup : (fragmentRunIds records r.osPid).Nodup := List.nodup_dedup _
  unfold staleAction
  simp only [hdup, htrusted, hempty, Bool.false_eq_true, if_false, List.isEmpty_nil, Bool.not_true]
  generalize fragmentRunIds records r.osPid = runs at hnodup ⊢
  by_cases hother : r.osPid ≠ 0 ∧ ∃ run ∈ runs, run ≠ cur
  · obtain ⟨hpid, run, hmem, hne⟩ := id hother
    rw [if_pos hother, if_pos ⟨hpid, List.ne_nil_of_mem hmem⟩]
    by_cases hcurrent : cur ∈ runs
    · have htwo : runs.length > 1 := by
        match runs, hmem, hcurrent with
        | [a], hmem, hcurrent =>
          rw [List.mem_singleton] at hmem hcurrent
          exact absurd (hmem.trans hcurrent.symm) hne
        | _ :: _ :: _, _, _ => simp
      rw [if_neg (not_not.mpr hcurrent), if_pos htwo, if_pos hcurrent]
    · rw [if_pos hcurrent, if_neg hcurrent]
  · rw [if_neg hother]
    by_cases hruns : r.osPid ≠ 0 ∧ runs ≠ []
    · -- only the current run started the pid
      have hall : ∀ run ∈ runs, run = cur := fun run hmem =>
        by_contra fun hne => hother ⟨hruns.1, run, hmem, hne⟩
      match runs, hall, hnodup, hruns.2 with
      | [run], hall, _, _ =>
        obtain rfl := hall run (List.mem_singleton.mpr rfl)
        rw [if_pos ⟨hruns.1, List.cons_ne_nil _ _⟩,
          if_neg (not_not.mpr (List.mem_singleton.mpr rfl)), if_neg (by simp)]
      | a :: b :: rest, hall, hnodup, _ =>
        have ha := hall a (by simp)
        have hb := hall b (by simp)
        exact absurd (ha.trans hb.symm ▸ List.mem_cons_self ..) (List.nodup_cons.mp hnodup).1
    · rw [if_neg hruns]

end OneRecord

theorem mem_fragmentRunIds {records : List MonitorRecord} {pid : UInt64} {run : NimStr} :
    run ∈ fragmentRunIds records pid ↔ ∃ s ∈ records, s.kind = mrProcessStart ∧ s.osPid = pid ∧
      hasDuplicateIdentityToken s.detail = false ∧ run ∈ runValues s.detail := by
  simp only [fragmentRunIds, List.mem_dedup, List.mem_filter, List.mem_map, Bool.and_eq_true,
    beq_iff_eq, Bool.not_eq_true', List.isEmpty_eq_false_iff]
  constructor
  · rintro ⟨⟨s, ⟨hs, ⟨hkind, hpid⟩, hdup⟩, htrusted⟩, hne⟩
    exact ⟨s, hs, hkind, hpid, hdup, (mem_runValues_iff hdup).mpr ⟨htrusted, hne⟩⟩
  · rintro ⟨s, hs, hkind, hpid, hdup, hrun⟩
    obtain ⟨htrusted, hne⟩ := (mem_runValues_iff hdup).mp hrun
    exact ⟨⟨s, ⟨hs, ⟨hkind, hpid⟩, hdup⟩, htrusted⟩, hne⟩

/-- In a reused directory the run ids of a pid are those of its readable starts. -/
theorem ReusedDirectory.mem_fragmentRunIds_iff (dir : ReusedDirectory) {pid : UInt64}
    {run : NimStr} : run ∈ fragmentRunIds dir.records pid ↔ dir.CleanStart run pid := by
  rw [mem_fragmentRunIds]
  constructor
  · rintro ⟨s, hs, hkind, hpid, hdup, hrun⟩
    obtain ⟨e, he, rfl⟩ := List.mem_map.mp hs
    exact ⟨e, he, (dir.ownStamp e he hdup run hrun).symm, hpid, hkind, hdup, hrun⟩
  · rintro ⟨s, hs, -, hpid, hkind, hdup, hrun⟩
    exact ⟨s.2, List.mem_map_of_mem hs, hkind, hpid, hdup, hrun⟩

/-! ## 4. Applying it twice

After one pass the directory holds the process-starts of the current run alone, so the only thing a
second pass could object to is the text of the losses the first one added. -/

/-- A loss text ends in the run id, as a token of its own. -/
structure LossText (cur text : NimStr) : Prop where
  values : runValues text = runValues cur
  duplicates : hasDuplicateIdentityToken text = hasDuplicateIdentityToken cur

theorem lossText_of_words {words : NimStr} (cur : NimStr)
    (h : ∀ key ∈ [RunIdToken, StartTimeToken, ChildStartTimeToken, PeerStartTimeToken,
      NonceToken], matchingTokens words key = []) : LossText cur (words ++ 32 :: cur) := by
  have happend : ∀ key ∈ [RunIdToken, StartTimeToken, ChildStartTimeToken, PeerStartTimeToken,
      NonceToken], matchingTokens (words ++ 32 :: cur) key = matchingTokens cur key := by
    intro key hkey
    rw [matchingTokens_append_space (by decide), h key hkey, List.nil_append]
  refine ⟨by rw [runValues, runValues, happend RunIdToken (List.mem_cons_self ..)], ?_⟩
  have hdup : ∀ key ∈ [RunIdToken, StartTimeToken, ChildStartTimeToken, PeerStartTimeToken,
      NonceToken],
      detailTokenDuplicate (words ++ 32 :: cur) key = detailTokenDuplicate cur key := by
    intro key hkey
    rw [detailTokenDuplicate, detailTokenDuplicate, happend key hkey]
  rw [Bool.eq_iff_iff, hasDuplicateIdentityToken, hasDuplicateIdentityToken, List.any_eq_true,
    List.any_eq_true]
  constructor
  · rintro ⟨key, hkey, hd⟩
    exact ⟨key, hkey, hdup key hkey ▸ hd⟩
  · rintro ⟨key, hkey, hd⟩
    exact ⟨key, hkey, (hdup key hkey).symm ▸ hd⟩

theorem lossText_of_mem {records : List MonitorRecord} {cur : NimStr} (hcur : cur ≠ [])
    {l : MonitorRecord} (h : l ∈ staleLosses records cur) : LossText cur l.detail := by
  have hempty : cur.isEmpty = false := by simpa using hcur
  rcases List.mem_append.mp h with h | h <;> obtain ⟨pid, _, rfl⟩ := List.mem_map.mp h
  · have htext : str "ambiguous unstamped fragment record for reused pid in run " =
        str "ambiguous unstamped fragment record for reused pid in run" ++ [32] := by
      decide +kernel
    have hdetail : ambiguousLossDetail cur =
        str "ambiguous unstamped fragment record for reused pid in run" ++ 32 :: cur := by
      rw [ambiguousLossDetail, htext, List.append_assoc, List.singleton_append]
    exact hdetail ▸ lossText_of_words cur (by decide +kernel)
  · have htext : str "duplicate identity token in fragment record for run " =
        str "duplicate identity token in fragment record for run" ++ [32] := by
      decide +kernel
    have hdetail : duplicateIdentityLossDetail cur =
        str "duplicate identity token in fragment record for run" ++ 32 :: cur := by
      rw [duplicateIdentityLossDetail, hempty, if_neg Bool.false_ne_true, htext,
        List.append_assoc, List.singleton_append]
    exact hdetail ▸ lossText_of_words cur (by decide +kernel)

/-- A run id is one token, so it duplicates none. -/
theorem RunId.no_duplicates (cur : RunId) : hasDuplicateIdentityToken cur.text = false := by
  have htokens : (tokens cur.text).length ≤ 1 := by
    by_cases hne : cur.text = []
    · rw [hne]
      decide
    · rw [tokens_of_noSpace cur.noSpace hne]
      exact Nat.le_refl 1
  have hone : ∀ key, detailTokenDuplicate cur.text key = false := by
    intro key
    have hle := List.length_filter_le (tokenStartsWith (key ++ str "=")) (tokens cur.text)
    rw [detailTokenDuplicate, matchingTokens_eq_filter, decide_eq_false_iff_not]
    omega
  simp only [hasDuplicateIdentityToken, List.any_cons, List.any_nil, hone, Bool.or_false]

/-- A run value read out of a run id is shorter than the id. -/
theorem RunId.runValue_ne (cur : RunId) (hcur : cur.text ≠ []) {run : NimStr}
    (h : run ∈ runValues cur.text) : run ≠ cur.text := by
  obtain ⟨tok, htok, rfl⟩ := List.mem_map.mp h
  rw [matchingTokens_eq_filter, tokens_of_noSpace cur.noSpace hcur, List.mem_filter,
    List.mem_singleton] at htok
  obtain ⟨rfl, -⟩ := htok
  have hpos := List.length_pos_of_ne_nil hcur
  intro heq
  have hlen := congrArg List.length heq
  rw [List.length_drop] at hlen
  omega

section Twice

variable {records : List MonitorRecord} {cur : NimStr} (hcur : cur ≠ [])

include hcur

/-- **After one pass** only the current run has process-starts that can be read. -/
theorem fragmentRunIds_dropStale {pid : UInt64} {run : NimStr}
    (h : run ∈ fragmentRunIds (dropStaleRunRecords records cur) pid) : run = cur := by
  obtain ⟨s, hs, hkind, -, hdup, hrun⟩ := mem_fragmentRunIds.mp h
  rcases List.mem_append.mp hs with hs | hs
  · have hkeep := (mem_staleKept.mp hs).2
    rw [staleAction_of_stamp records hcur hdup hrun] at hkeep
    by_contra hne
    rw [if_neg hne] at hkeep
    exact absurd hkeep (by simp)
  · exact absurd (hkind.symm.trans (staleLosses_kind hs).1) (by simp)

/-- A record without another run's stamp stays. -/
theorem staleAction_again {r : MonitorRecord}
    (hdup : hasDuplicateIdentityToken r.detail = false)
    (hruns : ∀ run ∈ runValues r.detail, run = cur) :
    staleAction (dropStaleRunRecords records cur) cur r = keep := by
  rcases trustedRun_cases hdup with ⟨hvalues, -⟩ | ⟨run, hvalues, -, -⟩
  · rw [staleAction_unstamped _ hcur hdup hvalues, if_neg]
    rintro ⟨-, run, hrun, hne⟩
    exact hne (fragmentRunIds_dropStale hcur hrun)
  · have hmem : run ∈ runValues r.detail := hvalues ▸ List.mem_singleton.mpr rfl
    rw [staleAction_of_stamp _ hcur hdup hmem, if_pos (hruns run hmem)]

/-- What was kept once is kept again. -/
theorem staleAction_kept_again {r : MonitorRecord} (h : r ∈ staleKept records cur) :
    staleAction (dropStaleRunRecords records cur) cur r = keep := by
  have hkeep := (mem_staleKept.mp h).2
  have hdup : hasDuplicateIdentityToken r.detail = false := by
    by_contra hdup
    rw [Bool.not_eq_false] at hdup
    rw [staleAction_duplicate records hdup] at hkeep
    exact absurd hkeep (by simp)
  refine staleAction_again hcur hdup fun run hrun => ?_
  rw [staleAction_of_stamp records hcur hdup hrun] at hkeep
  by_contra hne
  rw [if_neg hne] at hkeep
  exact absurd hkeep (by simp)

end Twice

/-- **Applying it twice** is applying it once, if the run id does not itself read as a `run=` token
in the texts of the losses, or if there are none. -/
theorem dropStaleRunRecords_idem_iff (records : List MonitorRecord) (cur : RunId)
    (hcur : cur.text ≠ []) :
    dropStaleRunRecords (dropStaleRunRecords records cur.text) cur.text =
        dropStaleRunRecords records cur.text ↔
      runValues cur.text = [] ∨ staleLosses records cur.text = [] := by
  have hkept (r : MonitorRecord) (hr : r ∈ staleKept records cur.text) :
      staleAction (dropStaleRunRecords records cur.text) cur.text r = keep :=
    staleAction_kept_again hcur hr
  have hlossDup : ∀ l ∈ staleLosses records cur.text,
      hasDuplicateIdentityToken l.detail = false := fun l hl =>
    (lossText_of_mem hcur hl).duplicates.trans cur.no_duplicates
  -- whatever the losses' texts read as, no second loss is added
  have hsecond : staleLosses (dropStaleRunRecords records cur.text) cur.text = [] := by
    refine staleLosses_eq_nil.mpr fun r hr => ?_
    rcases List.mem_append.mp hr with hr | hr
    · exact .inl (hkept r hr)
    · rcases trustedRun_cases (hlossDup r hr) with ⟨hvalues, -⟩ | ⟨run, hvalues, -, -⟩
      · refine .inl (staleAction_again hcur (hlossDup r hr) ?_)
        rw [hvalues]
        exact fun run hrun => absurd hrun List.not_mem_nil
      · have hmem : run ∈ runValues r.detail := hvalues ▸ List.mem_singleton.mpr rfl
        rw [staleAction_of_stamp _ hcur (hlossDup r hr) hmem]
        split
        · exact .inl rfl
        · exact .inr rfl
  have hfilter : (staleKept records cur.text).filter (fun r =>
      staleAction (dropStaleRunRecords records cur.text) cur.text r == keep) =
        staleKept records cur.text :=
    List.filter_eq_self.mpr fun r hr => by rw [hkept r hr]; rfl
  have htwice : dropStaleRunRecords (dropStaleRunRecords records cur.text) cur.text =
      staleKept records cur.text ++ (staleLosses records cur.text).filter (fun l =>
        staleAction (dropStaleRunRecords records cur.text) cur.text l == keep) := by
    rw [dropStaleRunRecords, hsecond, List.append_nil, staleKept]
    nth_rewrite 2 [dropStaleRunRecords]
    rw [List.filter_append, hfilter]
  have honce : dropStaleRunRecords records cur.text =
      staleKept records cur.text ++ staleLosses records cur.text := rfl
  rw [htwice]
  nth_rewrite 2 [honce]
  rw [List.append_cancel_left_eq, List.filter_eq_self]
  constructor
  · intro h
    by_contra hno
    rw [not_or] at hno
    obtain ⟨l, hl⟩ := List.exists_mem_of_ne_nil _ hno.2
    -- a loss whose text carries another id is dropped by the second pass
    obtain ⟨run, hrun⟩ := List.exists_mem_of_ne_nil _ hno.1
    have hvalue : run ∈ runValues l.detail := (lossText_of_mem hcur hl).values ▸ hrun
    have hne : run ≠ cur.text := cur.runValue_ne hcur hrun
    have hkeep := h l hl
    rw [staleAction_of_stamp _ hcur (hlossDup l hl) hvalue, if_neg hne] at hkeep
    exact absurd hkeep (by decide)
  · rintro (hfree | hnone) l hl
    · have hvalues := (lossText_of_mem hcur hl).values.trans hfree
      rw [staleAction_again hcur (hlossDup l hl)
        (hvalues ▸ fun run hrun => absurd hrun List.not_mem_nil)]
      rfl
    · exact absurd hl (hnone ▸ List.not_mem_nil)

/-! ## 5. The exact condition -/

section Separation

variable (dir : ReusedDirectory) (cur : NimStr)

/-- **Another run's unstamped record can be recognised**: some process-start of its pid that is
not the current run's can be read. -/
def StartsReadable : Prop :=
  ∀ e ∈ dir.entries, e.1 ≠ cur → hasDuplicateIdentityToken e.2.detail = false →
    runValues e.2.detail = [] → ∃ run, run ≠ cur ∧ dir.CleanStart run e.2.osPid

/-- Every record can be decided: none has a duplicated identity token, and none is an unstamped
one of a pid that the current run and another one can be seen to have started. -/
def AllDecided : Prop :=
  ∀ e ∈ dir.entries, hasDuplicateIdentityToken e.2.detail = false ∧
    (runValues e.2.detail = [] → dir.CleanStart cur e.2.osPid →
      ∀ run, dir.CleanStart run e.2.osPid → run = cur)

variable {dir cur}

theorem mem_kept {e : NimStr × MonitorRecord} : e ∈ dir.kept cur ↔
    e ∈ dir.entries ∧ staleAction dir.records cur e.2 = keep := by
  simp only [ReusedDirectory.kept, List.mem_filter, beq_iff_eq]

/-- The survivors are the kept entries, in their order. -/
theorem staleKept_records : staleKept dir.records cur = (dir.kept cur).map (·.2) := by
  rw [staleKept, ReusedDirectory.kept, ReusedDirectory.records, List.filter_map]
  rfl

/-- An entry that got the action leaves a loss for its pid. -/
theorem exists_loss {e : NimStr × MonitorRecord} {a : StaleAction} (he : e ∈ dir.entries)
    (ha : staleAction dir.records cur e.2 = a) (hlossy : a = ambiguous ∨ a = duplicateIdentity) :
    ∃ l ∈ dropStaleRunRecords dir.records cur, l.kind = mrEventLoss ∧ l.osPid = e.2.osPid := by
  have hpid : e.2.osPid ∈ staleLossPids dir.records cur a := by
    rw [staleLossPids, List.mem_dedup]
    refine List.mem_map_of_mem (List.mem_filter.mpr ⟨List.mem_map_of_mem he, ?_⟩)
    rw [ha, beq_self_eq_true]
  rcases hlossy with rfl | rfl
  · exact ⟨_, List.mem_append_right _ (List.mem_append_left _ (List.mem_map_of_mem hpid)),
      rfl, rfl⟩
  · exact ⟨_, List.mem_append_right _ (List.mem_append_right _ (List.mem_map_of_mem hpid)),
      rfl, rfl⟩

section NonEmpty

variable (hcur : cur ≠ [])

include hcur

/-- Without a stamp, on the readable starts of the pid. -/
theorem staleAction_entry {e : NimStr × MonitorRecord} (he : e ∈ dir.entries)
    (hdup : hasDuplicateIdentityToken e.2.detail = false) (hrun : runValues e.2.detail = []) :
    (staleAction dir.records cur e.2 = keep ↔ ∀ run, dir.CleanStart run e.2.osPid → run = cur) ∧
      (staleAction dir.records cur e.2 = drop → ¬ dir.CleanStart cur e.2.osPid) ∧
      (staleAction dir.records cur e.2 = ambiguous → dir.CleanStart cur e.2.osPid) := by
  have hstarts : ∀ run, run ∈ fragmentRunIds dir.records e.2.osPid ↔
      dir.CleanStart run e.2.osPid := fun run => dir.mem_fragmentRunIds_iff
  rw [staleAction_unstamped dir.records hcur hdup hrun, ← hstarts cur]
  by_cases hother : e.2.osPid ≠ 0 ∧ ∃ run ∈ fragmentRunIds dir.records e.2.osPid, run ≠ cur
  · obtain ⟨run, hmem, hne⟩ := hother.2
    rw [if_pos hother]
    refine ⟨iff_of_false (by split <;> simp) fun hall => ?_, ?_, ?_⟩
    · exact hne (hall run ((hstarts run).mp hmem))
    · split
      · exact fun h => absurd h (by simp)
      · rename_i hno
        exact fun _ => hno
    · split
      · rename_i hyes
        exact fun _ => hyes
      · exact fun h => absurd h (by simp)
  · rw [if_neg hother]
    refine ⟨iff_of_true rfl fun run hclean => by_contra fun hne => ?_, ?_, ?_⟩
    · exact hother ⟨dir.pid_ne_zero e he, run, (hstarts run).mpr hclean, hne⟩
    · exact fun h => absurd h (by simp)
    · exact fun h => absurd h (by simp)

/-- A record that can be read and is stamped belongs to the run it names. -/
theorem staleAction_own_stamp {e : NimStr × MonitorRecord} (he : e ∈ dir.entries)
    (hdup : hasDuplicateIdentityToken e.2.detail = false) (hrun : runValues e.2.detail ≠ []) :
    staleAction dir.records cur e.2 = if e.1 = cur then keep else drop := by
  obtain ⟨run, hmem⟩ := List.exists_mem_of_ne_nil _ hrun
  have hown := dir.ownStamp e he hdup run hmem
  rw [staleAction_of_stamp dir.records hcur hdup hmem, hown]

/-- **No record of another run survives**, exactly when their unstamped ones can be recognised. -/
theorem only_current_iff : (∀ e ∈ dir.kept cur, e.1 = cur) ↔ StartsReadable dir cur := by
  constructor
  · intro h e he hne hdup hrun
    by_contra hno
    refine hne (h e (mem_kept.mpr ⟨he, ?_⟩))
    refine (staleAction_entry hcur he hdup hrun).1.mpr fun run hclean => ?_
    exact by_contra fun hrun' => hno ⟨run, hrun', hclean⟩
  · intro h e hkept
    obtain ⟨he, hkeep⟩ := mem_kept.mp hkept
    by_contra hne
    cases hdup : hasDuplicateIdentityToken e.2.detail with
    | true =>
      rw [staleAction_duplicate dir.records hdup] at hkeep
      exact absurd hkeep (by simp)
    | false =>
      by_cases hrun : runValues e.2.detail = []
      · obtain ⟨run, hother, hclean⟩ := h e he hne hdup hrun
        exact hother ((staleAction_entry hcur he hdup hrun).1.mp hkeep run hclean)
      · rw [staleAction_own_stamp hcur he hdup hrun, if_neg hne] at hkeep
        exact absurd hkeep (by simp)

/-- **A removed record of the current run leaves a loss.**  If it was dropped without one, its
process-start was not readable, and that one left the loss. -/
theorem removed_lossy {e : NimStr × MonitorRecord} (he : e ∈ dir.entries) (hown : e.1 = cur)
    (hremoved : e ∉ dir.kept cur) :
    ∃ l ∈ dropStaleRunRecords dir.records cur, l.kind = mrEventLoss ∧ l.osPid = e.2.osPid := by
  cases hdup : hasDuplicateIdentityToken e.2.detail with
  | true => exact exists_loss he (staleAction_duplicate dir.records hdup) (.inr rfl)
  | false =>
    by_cases hrun : runValues e.2.detail = []
    · obtain ⟨-, hdrop, -⟩ := staleAction_entry hcur he hdup hrun
      cases ha : staleAction dir.records cur e.2 with
      | keep => exact absurd (mem_kept.mpr ⟨he, ha⟩) hremoved
      | ambiguous => exact exists_loss he ha (.inl rfl)
      | duplicateIdentity => exact exists_loss he ha (.inr rfl)
      | drop =>
        obtain ⟨s, hs, hsame, hpid, hkind, hstamp⟩ := dir.started e he
        cases hsdup : hasDuplicateIdentityToken s.2.detail with
        | true =>
          rw [← hpid]
          exact exists_loss hs (staleAction_duplicate dir.records hsdup) (.inr rfl)
        | false =>
          have hclean : dir.CleanStart cur e.2.osPid :=
            ⟨s, hs, hsame.trans hown, hpid, hkind, hsdup, hown ▸ hsame ▸ hstamp⟩
          exact absurd hclean (hdrop ha)
    · refine absurd (mem_kept.mpr ⟨he, ?_⟩) hremoved
      rw [staleAction_own_stamp hcur he hdup hrun, if_pos hown]

theorem staleLosses_eq_nil_iff : staleLosses dir.records cur = [] ↔ AllDecided dir cur := by
  rw [staleLosses_eq_nil]
  constructor
  · intro h e he
    have haction := h e.2 (List.mem_map_of_mem he)
    have hdup : hasDuplicateIdentityToken e.2.detail = false := by
      by_contra hdup
      rw [Bool.not_eq_false] at hdup
      rw [staleAction_duplicate dir.records hdup] at haction
      exact absurd haction (by simp)
    refine ⟨hdup, fun hrun hclean => ?_⟩
    obtain ⟨hkeep, hdrop, -⟩ := staleAction_entry hcur he hdup hrun
    rcases haction with ha | ha
    · exact hkeep.mp ha
    · exact absurd hclean (hdrop ha)
  · intro h r hr
    obtain ⟨e, he, rfl⟩ := List.mem_map.mp hr
    obtain ⟨hdup, hsingle⟩ := h e he
    by_cases hrun : runValues e.2.detail = []
    · obtain ⟨hkeep, -, hambiguous⟩ := staleAction_entry hcur he hdup hrun
      cases ha : staleAction dir.records cur e.2 with
      | keep => exact .inl rfl
      | drop => exact .inr rfl
      | ambiguous =>
        have := hkeep.mpr (hsingle hrun (hambiguous ha))
        rw [ha] at this
        exact absurd this (by simp)
      | duplicateIdentity =>
        rw [staleAction_unstamped dir.records hcur hdup hrun] at ha
        split at ha
        · split at ha <;> exact absurd ha (by simp)
        · exact absurd ha (by simp)
    · rw [staleAction_own_stamp hcur he hdup hrun]
      split
      · exact .inl rfl
      · exact .inr rfl

end NonEmpty

/-- **When the runs are kept apart.**  Whatever the directory, a removed record of the current run
leaves a loss for its pid and the kept ones stay as they are.  No record of another run is kept
exactly when the unstamped ones can be recognised, and a second application changes nothing
exactly when the run id does not read as a `run=` token or there is no loss to put it in. -/
theorem runsSeparated_iff (dir : ReusedDirectory) (cur : RunId) (hcur : cur.text ≠ []) :
    RunsSeparated dir cur.text ↔ StartsReadable dir cur.text ∧
      (runValues cur.text = [] ∨ AllDecided dir cur.text) := by
  have hidem := dropStaleRunRecords_idem_iff dir.records cur hcur
  rw [staleLosses_eq_nil_iff hcur] at hidem
  constructor
  · exact fun h => ⟨(only_current_iff hcur).mp h.only_current, hidem.mp h.idempotent⟩
  · rintro ⟨hreadable, htwice⟩
    refine ⟨(only_current_iff hcur).mpr hreadable, fun e he => removed_lossy hcur he, ?_,
      hidem.mpr htwice⟩
    refine ⟨staleLosses dir.records cur.text, ?_, fun l hl => (staleLosses_kind hl).1⟩
    rw [← staleKept_records]
    rfl

end Separation

/-! ## 6. A directory two runs used -/

/-- The process-start a process with pid 900 left. -/
def startWith (detail : String) : MonitorRecord where
  kind := mrProcessStart
  observationKind := moProcessStart
  osPid := 900
  detail := str detail

def staleRead : MonitorRecord where
  kind := mrFileRead
  observationKind := moFileRead
  osPid := 900
  path := str "/old/stale.h"

/-- Run `OLD` left a process-start with two run tokens and an unstamped read; run `CURRENT` was
given the same pid. -/
def maskedStart : ReusedDirectory where
  entries := [(str "OLD", startWith "run=CURRENT run=OLD"), (str "OLD", staleRead),
    (str "CURRENT", startWith "run=CURRENT")]
  started := by decide +kernel
  ownStamp := by decide +kernel
  pid_ne_zero := by decide +kernel

/-- **The stale read is kept**: the only readable process-start of its pid is the current run's,
so the merge takes the read for one of the current run. -/
theorem maskedStart_not_separated : ¬ RunsSeparated maskedStart (str "CURRENT") := by
  intro h
  have hstale : (str "OLD", staleRead) ∈ maskedStart.kept (str "CURRENT") := by
    decide +kernel
  exact absurd (h.only_current _ hstale) (by decide +kernel)

/-- The same directory with a process-start that can be read. -/
def readableStart : ReusedDirectory where
  entries := [(str "OLD", startWith "run=OLD"), (str "OLD", staleRead),
    (str "CURRENT", startWith "run=CURRENT")]
  started := by decide +kernel
  ownStamp := by decide +kernel
  pid_ne_zero := by decide +kernel

def currentRun : RunId := ⟨str "CURRENT", by decide +kernel⟩

/-- There the runs are kept apart. -/
theorem runsSeparated_iff_readableStart : RunsSeparated readableStart currentRun.text := by
  refine (runsSeparated_iff readableStart currentRun (by decide +kernel)).mpr ⟨?_, .inl ?_⟩
  · have hpid : ∀ e ∈ readableStart.entries, e.2.osPid = 900 := by decide +kernel
    intro e he _ _ _
    rw [hpid e he]
    exact ⟨str "OLD", by decide +kernel, (str "OLD", startWith "run=OLD"), by decide +kernel⟩
  · decide +kernel

end IoMon
