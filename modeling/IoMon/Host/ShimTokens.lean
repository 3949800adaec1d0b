/-
# What the two variables of a request say

A request names the event categories and the evidence scope it wants, and `childEnv` writes both
into the child's environment.  The interest is written by `interestToShimTokens`: the categories,
and behind a fence the spellings of the vocabulary before the split, which a shim of that time needs
in order not to record too little.

  * `shimInterestFromEnv_wire` -- a shim of this build reads back the categories that were asked
    for, whatever the padding says;
  * `preSplitWanted_wire` -- a shim of the vocabulary before the split records every kind that was
    asked for;
  * `interestToShimTokens_inj`, `evidenceScopeToken_inj` -- two requests are written alike only if
    they ask for the same.
-/
import IoMon.File.ScopeStamps

namespace IoMon.ShimTokens

open ByteText MonitorRecordKind EventCategory EvidenceScope LegacyEventCategory

/-! ## 1. Writing and reading -/

/-- `interestToShimTokens`: the canonical tokens, and behind the fence the legacy ones an older
shim needs so as not to capture too little. -/
def interestToShimTokens (interest : Finset EventCategory) : NimStr :=
  let normalized := normalizeInterest interest
  let parts := (EventCategory.all.filter fun c => decide (c ∈ normalized)).map interestToken
  let padding := LegacyEventCategory.all.foldl (fun padding legacy =>
    let tok := legacyInterestToken legacy
    if !parts.contains tok && !padding.contains tok &&
        (legacyMemberKinds legacy).any (recordWanted normalized) then padding ++ [tok]
    else padding) []
  joinStr (str ",") (if padding.isEmpty then parts else parts ++ [LegacyPaddingToken] ++ padding)

/-- `shimInterestFromEnv`: a value that names nothing asks for everything. -/
def shimInterestFromEnv (value : NimStr) : Finset EventCategory :=
  let result := parseInterestTokens value
  if result = ∅ then FullInterest else result

/-- The record kinds no vocabulary ever gated: those that speak about the capture itself. -/
def metaKind (kind : MonitorRecordKind) : Bool :=
  (categoryOf kind).isNone && kind != mrIpcConnect && kind != mrExternalContent

/-- Whether a shim of the vocabulary before the split records the kind under this value: the
`emitted` set of the static check behind `shimInterestFromEnv`. -/
def preSplitWanted (value : NimStr) (kind : MonitorRecordKind) : Bool :=
  metaKind kind || (splitAt 44 value).any fun raw => LegacyEventCategory.all.any fun legacy =>
    raw == legacyInterestToken legacy && (legacyMemberKinds legacy).contains kind

/-! ## 2. The tokens of the value -/

/-- The canonical tokens of an interest. -/
def canonicalTokens (interest : Finset EventCategory) : List NimStr :=
  (EventCategory.all.filter fun c => decide (c ∈ normalizeInterest interest)).map interestToken

/-- Whether a legacy spelling is added behind the fence: it is none of the tokens, and stands for a
kind that is wanted. -/
def padded (interest : Finset EventCategory) (legacy : LegacyEventCategory) : Bool :=
  !(canonicalTokens interest).contains (legacyInterestToken legacy) &&
    (legacyMemberKinds legacy).any (recordWanted (normalizeInterest interest))

/-- The padding, as the encoder accumulates it. -/
def padding (interest : Finset EventCategory) : List NimStr :=
  LegacyEventCategory.all.foldl (fun padding legacy =>
    let tok := legacyInterestToken legacy
    if !(canonicalTokens interest).contains tok && !padding.contains tok &&
        (legacyMemberKinds legacy).any (recordWanted (normalizeInterest interest)) then
      padding ++ [tok]
    else padding) []

section Tokens

variable {interest : Finset EventCategory}

theorem mem_all_category (c : EventCategory) : c ∈ EventCategory.all := by cases c <;> decide

theorem mem_all_legacy (l : LegacyEventCategory) : l ∈ LegacyEventCategory.all := by
  cases l <;> decide

theorem interestToken_injective : Function.Injective interestToken := by
  intro c d h
  have hnodup : (EventCategory.all.map interestToken).Nodup := by decide +kernel
  exact List.inj_on_of_nodup_map hnodup (mem_all_category c) (mem_all_category d) h

theorem legacyInterestToken_injective : Function.Injective legacyInterestToken := by
  intro l m h
  have hnodup : (LegacyEventCategory.all.map legacyInterestToken).Nodup := by decide +kernel
  exact List.inj_on_of_nodup_map hnodup (mem_all_legacy l) (mem_all_legacy m) h

theorem normalizeInterest_idem (interest : Finset EventCategory) :
    normalizeInterest (normalizeInterest interest) = normalizeInterest interest := by
  have hfull : FullInterest ≠ ∅ := by decide
  by_cases h : interest = ∅
  · rw [normalizeInterest, normalizeInterest, if_pos h, if_neg hfull]
  · rw [normalizeInterest, normalizeInterest, if_neg h, if_neg h]

theorem mem_canonicalTokens {c : EventCategory} :
    interestToken c ∈ canonicalTokens interest ↔ c ∈ normalizeInterest interest := by
  simp only [canonicalTokens, List.mem_map, List.mem_filter, decide_eq_true_eq]
  constructor
  · rintro ⟨d, ⟨-, hd⟩, htok⟩
    rwa [interestToken_injective htok] at hd
  · exact fun h => ⟨c, ⟨mem_all_category c, h⟩, rfl⟩

/-- Accumulating what is not there yet, one new value for each place. -/
theorem foldl_append_new {α β : Type} [BEq β] [LawfulBEq β] {f : α → β} {p : α → Bool}
    (hf : Function.Injective f) : ∀ (l : List α) (acc : List β), l.Nodup →
      (∀ a ∈ l, f a ∉ acc) →
      l.foldl (fun acc a => if p a && !acc.contains (f a) then acc ++ [f a] else acc) acc =
        acc ++ (l.filter p).map f := by
  intro l
  induction l with
  | nil => exact fun acc _ _ => (List.append_nil acc).symm
  | cons a l ih =>
    intro acc hnodup hnew
    obtain ⟨ha, hl⟩ := List.nodup_cons.mp hnodup
    have hacc : acc.contains (f a) = false := by
      simpa using hnew a (List.mem_cons_self ..)
    have hrest : ∀ b ∈ l, f b ∉ acc := fun b hb => hnew b (List.mem_cons_of_mem _ hb)
    rw [List.foldl_cons, hacc, Bool.not_false, Bool.and_true]
    by_cases hp : p a = true
    · rw [if_pos hp, List.filter_cons_of_pos hp, List.map_cons, ih _ hl]
      · rw [List.append_assoc, List.singleton_append]
      · intro b hb hmem
        rcases List.mem_append.mp hmem with hmem | hmem
        · exact hrest b hb hmem
        · exact ha (hf (List.mem_singleton.mp hmem) ▸ hb)
    · rw [if_neg hp, List.filter_cons_of_neg hp]
      exact ih _ hl hrest

theorem padding_eq :
    padding interest = (LegacyEventCategory.all.filter (padded interest)).map
      legacyInterestToken := by
  have hfold := foldl_append_new (p := padded interest) legacyInterestToken_injective
    LegacyEventCategory.all [] (by decide) (by simp)
  rw [List.nil_append] at hfold
  rw [padding, ← hfold]
  congr 1
  funext acc legacy
  refine if_congr ?_ rfl rfl
  rw [padded, Bool.and_right_comm]

/-- The old spelling for the IPC connects is always padding: nothing gates them, and no category
has their token. -/
theorem padded_ipc : padded interest lecIpc = true := by
  have hcanonical : (canonicalTokens interest).contains (legacyInterestToken lecIpc) = false := by
    have hnone : ∀ c, interestToken c ≠ legacyInterestToken lecIpc := by
      intro c
      cases c <;> decide
    simp [canonicalTokens, hnone]
  have hipc : recordWanted (normalizeInterest interest) mrIpcConnect = true := rfl
  simp only [padded, hcanonical, legacyMemberKinds, List.any_cons, hipc, Bool.true_or,
    Bool.not_false, Bool.and_self]

/-- The pieces of the value: the categories, the fence, the padding. -/
def wireTokens (interest : Finset EventCategory) : List NimStr :=
  canonicalTokens interest ++ [LegacyPaddingToken] ++ padding interest

theorem interestToShimTokens_eq :
    interestToShimTokens interest = joinStr (str ",") (wireTokens interest) := by
  have hne : (padding interest).isEmpty = false := by
    rw [padding_eq, List.isEmpty_eq_false_iff]
    refine List.ne_nil_of_mem (List.mem_map_of_mem (a := lecIpc) ?_)
    exact List.mem_filter.mpr ⟨mem_all_legacy _, padded_ipc⟩
  have hvalue : interestToShimTokens interest = joinStr (str ",")
      (if (padding interest).isEmpty then canonicalTokens interest
        else canonicalTokens interest ++ [LegacyPaddingToken] ++ padding interest) := rfl
  rw [hvalue, hne, if_neg Bool.false_ne_true, wireTokens]

theorem mem_wireTokens {tok : NimStr} : tok ∈ wireTokens interest ↔
    tok ∈ canonicalTokens interest ∨ tok = LegacyPaddingToken ∨
      ∃ legacy, padded interest legacy = true ∧ legacyInterestToken legacy = tok := by
  simp only [wireTokens, padding_eq, List.mem_append, List.mem_singleton, List.mem_map,
    List.mem_filter, mem_all_legacy, true_and, or_assoc]

/-- Every piece is a word: no comma in it and no white space around it. -/
theorem wireToken_word {tok : NimStr} (h : tok ∈ wireTokens interest) :
    (44 : UInt8) ∉ tok ∧ strip tok = tok := by
  have hcategory : ∀ c, (44 : UInt8) ∉ interestToken c ∧
      strip (interestToken c) = interestToken c := by
    intro c
    cases c <;> decide
  have hlegacy : ∀ l, (44 : UInt8) ∉ legacyInterestToken l ∧
      strip (legacyInterestToken l) = legacyInterestToken l := by
    intro l
    cases l <;> decide
  rcases mem_wireTokens.mp h with h | rfl | ⟨l, -, rfl⟩
  · obtain ⟨c, -, rfl⟩ := List.mem_map.mp h
    exact hcategory c
  · decide
  · exact hlegacy l

theorem splitAt_wire : splitAt 44 (interestToShimTokens interest) = wireTokens interest := by
  have hcomma : str "," = [44] := by decide
  rw [interestToShimTokens_eq, hcomma]
  refine splitAt_joinStr _ ?_ fun tok htok => (wireToken_word htok).1
  simp [wireTokens]

theorem hasToken_wire {tok : NimStr} :
    HasToken (interestToShimTokens interest) tok ↔ tok ∈ wireTokens interest := by
  rw [hasToken_iff, splitAt_wire]
  have hwords : (wireTokens interest).map strip = (wireTokens interest).map id :=
    List.map_congr_left fun tok htok => (wireToken_word htok).2
  rw [hwords, List.map_id]

/-- The kinds behind an old spelling that is still a token are the kinds of that category. -/
theorem category_of_spelling {legacy : LegacyEventCategory} {c : EventCategory}
    (h : legacyInterestToken legacy = interestToken c) :
    ∀ kind ∈ legacyMemberKinds legacy, categoryOf kind = some c := by
  revert h
  cases legacy <;> cases c <;> decide

/-- **The value has the token of a category exactly when the category is asked for.** -/
theorem hasToken_category {c : EventCategory} :
    HasToken (interestToShimTokens interest) (interestToken c) ↔
      c ∈ normalizeInterest interest := by
  rw [hasToken_wire, mem_wireTokens, mem_canonicalTokens]
  refine ⟨?_, Or.inl⟩
  rintro (h | h | ⟨legacy, hpadded, htok⟩)
  · exact h
  · exact absurd h (by cases c <;> decide)
  · -- a spelling that is also a token is padding only for a kind of that category
    obtain ⟨-, hany⟩ := Bool.and_eq_true_iff.mp hpadded
    obtain ⟨kind, hkind, hwanted⟩ := List.any_eq_true.mp hany
    have hcategory := category_of_spelling htok kind hkind
    simp only [recordWanted, hcategory, decide_eq_true_eq, normalizeInterest_idem] at hwanted
    exact hwanted

end Tokens

/-! ## 3. What a shim makes of it -/

section Reading

variable {interest : Finset EventCategory}

theorem hasToken_fence : HasToken (interestToShimTokens interest) LegacyPaddingToken := by
  rw [hasToken_wire, mem_wireTokens]
  exact Or.inr (Or.inl rfl)

theorem not_blank_wire : strip (interestToShimTokens interest) ≠ [] := by
  intro hblank
  have hfence : HasToken (interestToShimTokens interest) LegacyPaddingToken := hasToken_fence
  exact hasToken_of_blank hblank (by decide) hfence

theorem normalizeInterest_ne_empty : normalizeInterest interest ≠ ∅ := by
  have hfull : FullInterest ≠ ∅ := by decide
  unfold normalizeInterest
  split
  · exact hfull
  · assumption

/-- **A shim of this build reads what was asked for.**  The fence keeps the padding from it. -/
theorem shimInterestFromEnv_wire :
    shimInterestFromEnv (interestToShimTokens interest) = normalizeInterest interest := by
  have hparse : parseInterestTokens (interestToShimTokens interest) =
      normalizeInterest interest := by
    have hstamp : stampInterest (interestToShimTokens interest) =
        parseInterestTokens (interestToShimTokens interest) := by
      rw [stampInterest, if_neg]
      exact fun h => not_blank_wire (List.isEmpty_iff.mp h)
    ext c
    rw [← hstamp, mem_stampInterest, GrantsInterest, hasToken_category]
    refine ⟨?_, Or.inl⟩
    rintro (h | ⟨hopen, -⟩)
    · exact h
    · exact absurd hasToken_fence hopen
  rw [shimInterestFromEnv, hparse, if_neg normalizeInterest_ne_empty]

/-- Every kind is one of those that no vocabulary gates, or in a category of the old one. -/
theorem metaKind_or_legacy (kind : MonitorRecordKind) :
    metaKind kind = true ∨ ∃ legacy, kind ∈ legacyMemberKinds legacy := by
  cases kind with
  | mrFileOpen | mrFileRead | mrFileWrite | mrPathProbe | mrDirectoryEnumerate | mrPathMutation =>
    exact Or.inr ⟨lecFileDeps, by decide⟩
  | mrProcessStart | mrProcessExec | mrProcessSpawn => exact Or.inr ⟨lecProcessTree, by decide⟩
  | mrLibraryLoad => exact Or.inr ⟨lecLibraryLoads, by decide⟩
  | mrNonDeterministic | mrTimeRead | mrEnvRead | mrSysctlRead | mrExternalContent =>
    exact Or.inr ⟨lecNonDeterminism, by decide⟩
  | mrIpcConnect => exact Or.inr ⟨lecIpc, by decide⟩
  | _ => exact Or.inl rfl

/-- **A shim from before the split records every kind that was asked for.** -/
theorem preSplitWanted_wire {kind : MonitorRecordKind} (h : recordWanted interest kind = true) :
    preSplitWanted (interestToShimTokens interest) kind = true := by
  unfold preSplitWanted
  rcases metaKind_or_legacy kind with hmeta | ⟨legacy, hmember⟩
  · rw [hmeta, Bool.true_or]
  · have htok : legacyInterestToken legacy ∈ wireTokens interest := by
      rw [mem_wireTokens]
      by_cases hcanonical : legacyInterestToken legacy ∈ canonicalTokens interest
      · exact Or.inl hcanonical
      · -- the kind itself is what the spelling is added for
        refine Or.inr (Or.inr ⟨legacy, ?_, rfl⟩)
        have hany : (legacyMemberKinds legacy).any (recordWanted (normalizeInterest interest)) := by
          refine List.any_eq_true.mpr ⟨kind, hmember, ?_⟩
          simpa only [recordWanted, normalizeInterest_idem] using h
        simp only [padded, hany, Bool.and_true, Bool.not_eq_true', List.contains_eq_mem,
          decide_eq_false_iff_not]
        exact hcanonical
    rw [splitAt_wire, Bool.or_eq_true, List.any_eq_true]
    refine Or.inr ⟨_, htok, List.any_eq_true.mpr ⟨legacy, mem_all_legacy legacy, ?_⟩⟩
    simpa using hmember

/-- The evidence scope comes back, but for the one nobody can ask for, which gates nothing
either. -/
theorem recordInEvidenceScope_wire (scope : EvidenceScope) (record : MonitorRecord) :
    recordInEvidenceScope (parseEvidenceScopeToken (evidenceScopeToken scope)) record =
      recordInEvidenceScope scope record := by
  have hread : parseEvidenceScopeToken (evidenceScopeToken scope) =
      if scope = esUnrecognized then esFull else scope := by
    cases scope <;> decide +kernel
  rw [hread]
  cases scope <;> rfl

/-- **Two interests are written alike only if they are the same.** -/
theorem interestToShimTokens_inj {other : Finset EventCategory} :
    interestToShimTokens interest = interestToShimTokens other ↔
      normalizeInterest interest = normalizeInterest other := by
  constructor
  · intro h
    rw [← shimInterestFromEnv_wire, h, shimInterestFromEnv_wire]
  · intro h
    have hnormal : ∀ i : Finset EventCategory,
        interestToShimTokens (normalizeInterest i) = interestToShimTokens i := by
      intro i
      simp only [interestToShimTokens, normalizeInterest_idem]
    rw [← hnormal, h, hnormal]

theorem evidenceScopeToken_inj {scope other : EvidenceScope} :
    evidenceScopeToken scope = evidenceScopeToken other ↔ scope = other := by
  cases scope <;> cases other <;> decide

end Reading

end IoMon.ShimTokens
