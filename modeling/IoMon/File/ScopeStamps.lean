/-
# What a consumer may conclude from the scope stamps

A capture that was narrowed says so on its backend-profile records: `interest=` names the event
categories that were captured, `evidence=` how much of each is evidence.  A consumer asks
`observedInterestCovers` and `observedEvidenceScopeCovers` (`types.nim`) whether the stated scope
is enough for it.  The comments promise that every misreading errs towards refusing the file.

Read one stamp at a time that is so: an unknown token grants nothing, an empty value grants
nothing, the padding fence takes the old spellings back (`mem_stampInterest`,
`coversScope_stamp`).  But the readers stop at the first stamp there is.  A file with several of
them is taken for as wide as its first one, whatever the others say; and a further stamp in front
of the others replaces them all.  `scopeStamps_iff` says exactly when that does no harm.
-/
import IoMon.Depfile

namespace IoMon

open ByteText MonitorRecordKind EventCategory EvidenceScope LegacyEventCategory

/-! ## 1. The consumer's questions -/

/-- The only correct way to read the interest stamp, as its docstring has it: nothing stated is
full scope, nothing recognised is no scope. -/
def effectiveObservedInterest (dep : MonitorDepFile) : Finset EventCategory :=
  if dep.observedInterestStated then dep.observedInterest else FullInterest

def observedInterestCovers (dep : MonitorDepFile) (required : Finset EventCategory) : Bool :=
  decide (required ⊆ effectiveObservedInterest dep)

def effectiveObservedEvidenceScope (dep : MonitorDepFile) : EvidenceScope :=
  if dep.observedEvidenceScopeStated then dep.observedEvidenceScope else esFull

/-- Whether `held` is at least as strong as `required`. -/
def evidenceScopeCovers (held required : EvidenceScope) : Bool :=
  match held with
  | esFull => required == esFull || required == esReadsOnly
  | esReadsOnly => required == esReadsOnly
  | esUnrecognized => false

def observedEvidenceScopeCovers (dep : MonitorDepFile) (required : EvidenceScope) : Bool :=
  evidenceScopeCovers (effectiveObservedEvidenceScope dep) required

/-! ## 2. What a stamp grants

Said of the value as it stands in the file: its comma-separated pieces, without the white space
around them. -/

/-- One of the comma-separated pieces of a value is this token. -/
def HasToken (value tok : NimStr) : Prop := ∃ piece ∈ splitAt 44 value, strip piece = tok

/-- **The stamp grants the category**: by its own token, or by an old spelling that includes it,
if no padding fence says that the old spellings are padding. -/
def GrantsInterest (value : NimStr) (c : EventCategory) : Prop :=
  HasToken value (interestToken c) ∨
    ¬ HasToken value LegacyPaddingToken ∧
      ∃ legacy, HasToken value (legacyInterestToken legacy) ∧ c ∈ legacyInterestExpansion legacy

/-- **The stamp grants the evidence scope**: it is the token of one that covers it. -/
def GrantsScope (value : NimStr) (scope : EvidenceScope) : Prop :=
  ∃ stated, stated ≠ esUnrecognized ∧ strip value = evidenceScopeToken stated ∧
    evidenceScopeCovers stated scope = true

/-- Every stamp of a kind, in the order the readers meet them. -/
def stampValues (key : NimStr) (records : List MonitorRecord) : List NimStr :=
  (records.filter (·.kind == mrBackendProfile)).flatMap fun r =>
    (splitAt 59 r.detail).filterMap fun part =>
      match splitFirst 61 part with
      | some (k, v) => if k = key then some v else none
      | none => none

theorem stampValue_eq (key : NimStr) (records : List MonitorRecord) :
    stampValue key records = (stampValues key records).head? := rfl

theorem stampValues_append (key : NimStr) (rs rs' : List MonitorRecord) :
    stampValues key (rs ++ rs') = stampValues key rs ++ stampValues key rs' := by
  rw [stampValues, List.filter_append, List.flatMap_append]
  rfl

/-! ## 3. The tokens of a value

The reader takes the white space off the whole value before it splits it, and off every piece
after that; only the second matters. -/

theorem strip_cons_space {c : UInt8} (hc : isSpace c = true) (s : NimStr) :
    strip (c :: s) = strip s := by
  rw [strip, List.dropWhile_cons_of_pos hc, strip]

theorem strip_append_space {c : UInt8} (hc : isSpace c = true) (s : NimStr) :
    strip (s ++ [c]) = strip s := by
  have hright : ∀ t : NimStr, ((t ++ [c]).reverse.dropWhile isSpace).reverse =
      (t.reverse.dropWhile isSpace).reverse := by
    intro t
    rw [List.reverse_append, List.reverse_singleton, List.singleton_append,
      List.dropWhile_cons_of_pos hc]
  have hleft : (s ++ [c]).dropWhile isSpace = s.dropWhile isSpace ++ [c] ∨
      (s ++ [c]).dropWhile isSpace = [] ∧ s.dropWhile isSpace = [] := by
    induction s with
    | nil => exact Or.inr ⟨List.dropWhile_cons_of_pos hc, rfl⟩
    | cons d s ih =>
      by_cases hd : isSpace d = true
      · rw [List.cons_append, List.dropWhile_cons_of_pos hd, List.dropWhile_cons_of_pos hd]
        exact ih
      · rw [List.cons_append, List.dropWhile_cons_of_neg hd, List.dropWhile_cons_of_neg hd]
        exact Or.inl rfl
  rw [strip, strip]
  rcases hleft with h | ⟨h, h'⟩
  · rw [h, hright]
  · rw [h, h']

theorem map_strip_consHead {c : UInt8} (hc : isSpace c = true) {ps : List NimStr} (h : ps ≠ []) :
    (consHead c ps).map strip = ps.map strip := by
  obtain ⟨p, ps', rfl⟩ := List.exists_cons_of_ne_nil h
  rw [consHead, List.map_cons, List.map_cons, strip_cons_space hc]

/-- A byte behind the last piece belongs to it. -/
theorem splitAt_append_singleton {sep c : UInt8} (hc : c ≠ sep) (s : NimStr) :
    ∃ ps p, splitAt sep s = ps ++ [p] ∧ splitAt sep (s ++ [c]) = ps ++ [p ++ [c]] := by
  induction s with
  | nil => exact ⟨[], [], rfl, by simp [splitAt, hc, consHead]⟩
  | cons d s ih =>
    obtain ⟨ps, p, hs, hsc⟩ := ih
    rw [List.cons_append, splitAt, splitAt, hs, hsc]
    by_cases hd : d = sep
    · rw [if_pos hd, if_pos hd]
      exact ⟨[] :: ps, p, rfl, rfl⟩
    · rw [if_neg hd, if_neg hd]
      cases ps with
      | nil => exact ⟨[], d :: p, rfl, rfl⟩
      | cons q ps => exact ⟨(d :: q) :: ps, p, rfl, rfl⟩

/-- **White space around the value does not change its tokens.** -/
theorem map_strip_splitAt_strip (s : NimStr) :
    (splitAt 44 (strip s)).map strip = (splitAt 44 s).map strip := by
  have hcomma : ∀ c : UInt8, isSpace c = true → c ≠ 44 := by
    rintro c hc rfl
    exact absurd hc (by decide)
  have hleft : ∀ s : NimStr, (splitAt 44 (s.dropWhile isSpace)).map strip =
      (splitAt 44 s).map strip := by
    intro s
    induction s with
    | nil => rfl
    | cons c s ih =>
      by_cases hc : isSpace c = true
      · rw [List.dropWhile_cons_of_pos hc, ih, splitAt, if_neg (hcomma c hc),
          map_strip_consHead hc (splitAt_ne_nil 44 s)]
      · rw [List.dropWhile_cons_of_neg hc]
  have hright : ∀ s : NimStr, (splitAt 44 (s.reverse.dropWhile isSpace).reverse).map strip =
      (splitAt 44 s).map strip := by
    intro s
    induction s using List.reverseRecOn with
    | nil => rfl
    | append_singleton s c ih =>
      rw [List.reverse_append, List.reverse_singleton, List.singleton_append]
      by_cases hc : isSpace c = true
      · obtain ⟨ps, p, hs, hsc⟩ := splitAt_append_singleton (hcomma c hc) s
        rw [List.dropWhile_cons_of_pos hc, ih, hs, hsc, List.map_append, List.map_append,
          List.map_singleton, List.map_singleton, strip_append_space hc]
      · rw [List.dropWhile_cons_of_neg hc, List.reverse_cons, List.reverse_reverse]
  rw [strip, hright, hleft]

theorem hasToken_iff {value tok : NimStr} :
    HasToken value tok ↔ tok ∈ (splitAt 44 value).map strip := by
  rw [List.mem_map]
  rfl

/-- A blank value has no token but the empty one. -/
theorem hasToken_of_blank {value tok : NimStr} (h : strip value = []) (ht : tok ≠ []) :
    ¬ HasToken value tok := by
  rw [hasToken_iff, ← map_strip_splitAt_strip, h]
  intro hmem
  obtain rfl : tok = [] := List.mem_singleton.mp hmem
  exact ht rfl

/-! ## 4. One stamp -/

theorem mem_foldl_union {α : Type} [DecidableEq α] {c : α} (ss : List (Finset α))
    (s : Finset α) : c ∈ ss.foldl (· ∪ ·) s ↔ c ∈ s ∨ ∃ t ∈ ss, c ∈ t := by
  induction ss generalizing s with
  | nil => simp
  | cons t ss ih =>
    rw [List.foldl_cons, ih, Finset.mem_union]
    simp only [List.mem_cons, exists_eq_or_imp, or_assoc]

theorem mem_interestOfToken {fenced : Bool} {tok : NimStr} {c : EventCategory} :
    c ∈ interestOfToken fenced tok ↔ tok = interestToken c ∨
      fenced = false ∧ ∃ legacy, tok = legacyInterestToken legacy ∧
        c ∈ legacyInterestExpansion legacy := by
  have hall : ∀ c, c ∈ EventCategory.all := by
    intro c
    cases c <;> decide
  have hlegacy : ∀ l, l ∈ LegacyEventCategory.all := by
    intro l
    cases l <;> decide
  rw [interestOfToken, Finset.mem_union, List.mem_toFinset, List.mem_filter, beq_iff_eq,
    and_iff_right (hall c)]
  refine or_congr Iff.rfl ?_
  cases fenced with
  | true => simp
  | false =>
    rw [if_neg Bool.false_ne_true, mem_foldl_union]
    simp only [Finset.notMem_empty, false_or, List.mem_map, List.mem_filter, beq_iff_eq,
      exists_exists_and_eq_and, true_and, hlegacy]

/-- The categories a stamp is read as. -/
def stampInterest (value : NimStr) : Finset EventCategory :=
  if (strip value).isEmpty then ∅ else parseInterestTokens value

theorem tokens_ne_nil :
    (∀ c, interestToken c ≠ []) ∧ ∀ l, legacyInterestToken l ≠ [] := by
  constructor
  · intro c
    cases c <;> decide
  · intro l
    cases l <;> decide

/-- **A stamp is read as what it grants.** -/
theorem mem_stampInterest {value : NimStr} {c : EventCategory} :
    c ∈ stampInterest value ↔ GrantsInterest value c := by
  unfold stampInterest
  by_cases hblank : strip value = []
  · rw [if_pos (List.isEmpty_iff.mpr hblank)]
    refine iff_of_false (Finset.notMem_empty c) ?_
    rintro (h | ⟨_, l, h, _⟩)
    · exact hasToken_of_blank hblank (tokens_ne_nil.1 c) h
    · exact hasToken_of_blank hblank (tokens_ne_nil.2 l) h
  · have hne : ¬ (strip value).isEmpty = true := fun h => hblank (List.isEmpty_iff.mp h)
    rw [if_neg hne, parseInterestTokens]
    dsimp only
    rw [if_neg hne, map_strip_splitAt_strip, mem_foldl_union]
    simp only [Finset.notMem_empty, false_or, List.mem_map, exists_exists_and_eq_and,
      mem_interestOfToken]
    have hfence : (((splitAt 44 value).map strip).contains LegacyPaddingToken = false) ↔
        ¬ HasToken value LegacyPaddingToken := by
      rw [hasToken_iff, ← Bool.not_eq_true, List.contains_iff_mem]
    rw [hfence]
    constructor
    · rintro ⟨piece, hpiece, htok | ⟨hopen, l, htok, hc⟩⟩
      · exact Or.inl ⟨piece, hpiece, htok⟩
      · exact Or.inr ⟨hopen, l, ⟨piece, hpiece, htok⟩, hc⟩
    · rintro (⟨piece, hpiece, htok⟩ | ⟨hopen, l, ⟨piece, hpiece, htok⟩, hc⟩)
      · exact ⟨piece, hpiece, Or.inl htok⟩
      · exact ⟨piece, hpiece, Or.inr ⟨hopen, l, htok, hc⟩⟩

/-- The scope a stamp is read as. -/
def stampScope (value : NimStr) : EvidenceScope :=
  if (strip value).isEmpty then esUnrecognized else parseEvidenceScopeToken value

/-- **An evidence stamp covers what it grants.** -/
theorem coversScope_stamp {value : NimStr} {scope : EvidenceScope} :
    evidenceScopeCovers (stampScope value) scope = true ↔ GrantsScope value scope := by
  have hread : ∀ s, s ≠ esUnrecognized → strip value = evidenceScopeToken s →
      stampScope value = s := by
    intro s hs htok
    have hne : ¬ (strip value).isEmpty = true := by
      rw [htok]
      cases s with
      | esFull => decide
      | esReadsOnly => decide
      | esUnrecognized => exact absurd rfl hs
    rw [stampScope, if_neg hne, parseEvidenceScopeToken, if_neg hne, htok]
    cases s with
    | esFull => decide
    | esReadsOnly => decide
    | esUnrecognized => exact absurd rfl hs
  have hnothing : evidenceScopeCovers esUnrecognized scope ≠ true := Bool.false_ne_true
  constructor
  · intro h
    refine ⟨stampScope value, ?_, ?_, h⟩
    · intro hun
      rw [hun] at h
      exact hnothing h
    · unfold stampScope at h ⊢
      split
      · rename_i hblank
        rw [if_pos hblank] at h
        exact absurd h hnothing
      · rename_i hblank
        rw [if_neg hblank, parseEvidenceScopeToken, if_neg hblank] at h
        rw [parseEvidenceScopeToken, if_neg hblank]
        cases hfind : EvidenceScope.all.find? fun s => evidenceScopeToken s == strip value with
        | none =>
          rw [hfind] at h
          exact absurd h hnothing
        | some s =>
          have htok := List.find?_some hfind
          exact (eq_of_beq htok).symm
  · rintro ⟨s, hs, htok, hcovers⟩
    rw [hread s hs htok]
    exact hcovers

/-- No stamp grants the scope that nobody can state. -/
theorem GrantsScope.ne_unrecognized {value : NimStr} {scope : EvidenceScope}
    (h : GrantsScope value scope) : scope ≠ esUnrecognized := by
  obtain ⟨s, _, _, hcovers⟩ := h
  rintro rfl
  cases s <;> exact absurd hcovers (by decide)

/-! ## 5. A whole file: the first stamp decides -/

theorem effectiveObservedInterest_eq (records : List MonitorRecord) :
    effectiveObservedInterest (depFileFromOwnedRecords records) =
      ((stampValues (str "interest") records).head?.map stampInterest).getD FullInterest := by
  have hscope : effectiveObservedInterest (depFileFromOwnedRecords records) =
      if (observedInterestFromRecords records).1 then (observedInterestFromRecords records).2.2
      else FullInterest := rfl
  rw [hscope, observedInterestFromRecords, stampValue_eq]
  cases (stampValues (str "interest") records).head? with
  | none => rfl
  | some v => rfl

theorem effectiveObservedEvidenceScope_eq (records : List MonitorRecord) :
    effectiveObservedEvidenceScope (depFileFromOwnedRecords records) =
      ((stampValues (str "evidence") records).head?.map stampScope).getD esFull := by
  have hscope : effectiveObservedEvidenceScope (depFileFromOwnedRecords records) =
      if (observedEvidenceScopeFromRecords records).1 then
        (observedEvidenceScopeFromRecords records).2.2
      else esFull := rfl
  rw [hscope, observedEvidenceScopeFromRecords, stampValue_eq]
  cases (stampValues (str "evidence") records).head? with
  | none => rfl
  | some v => rfl

theorem observedInterestCovers_iff (records : List MonitorRecord) (I : Finset EventCategory) :
    observedInterestCovers (depFileFromOwnedRecords records) I = true ↔
      ∀ v ∈ (stampValues (str "interest") records).head?, ∀ c ∈ I, GrantsInterest v c := by
  rw [observedInterestCovers, decide_eq_true_eq, effectiveObservedInterest_eq, Finset.subset_iff]
  cases (stampValues (str "interest") records).head? with
  | none => simp
  | some v =>
    simp only [Option.map_some, Option.getD_some, mem_stampInterest, Option.mem_some_iff,
      forall_eq']

theorem observedEvidenceScopeCovers_iff (records : List MonitorRecord) (scope : EvidenceScope) :
    observedEvidenceScopeCovers (depFileFromOwnedRecords records) scope = true ↔
      scope ≠ esUnrecognized ∧
        ∀ v ∈ (stampValues (str "evidence") records).head?, GrantsScope v scope := by
  rw [observedEvidenceScopeCovers, effectiveObservedEvidenceScope_eq]
  cases (stampValues (str "evidence") records).head? with
  | none => cases scope <;> simp [evidenceScopeCovers]
  | some v =>
    simp only [Option.map_some, Option.getD_some, Option.mem_some_iff, forall_eq']
    rw [coversScope_stamp]
    exact ⟨fun h => ⟨h.ne_unrecognized, h⟩, fun h => h.2⟩

/-! ## 6. Several stamps -/

/-- **No over-claim**: whatever the consumer is told is covered, every stamp of the file grants. -/
structure ScopeNeverOverClaims (records : List MonitorRecord) : Prop where
  interest : ∀ I, observedInterestCovers (depFileFromOwnedRecords records) I = true →
    ∀ v ∈ stampValues (str "interest") records, ∀ c ∈ I, GrantsInterest v c
  evidence : ∀ scope,
    observedEvidenceScopeCovers (depFileFromOwnedRecords records) scope = true →
    ∀ v ∈ stampValues (str "evidence") records, GrantsScope v scope

/-- Every stamp behind the first one of its kind grants at least what the first one grants. -/
structure LaterStampsGrantNoLess (records : List MonitorRecord) : Prop where
  interest : ∀ first later, stampValues (str "interest") records = first :: later →
    ∀ v ∈ later, ∀ c, GrantsInterest first c → GrantsInterest v c
  evidence : ∀ first later, stampValues (str "evidence") records = first :: later →
    ∀ v ∈ later, ∀ scope, GrantsScope first scope → GrantsScope v scope

theorem scopeNeverOverClaims_iff (records : List MonitorRecord) :
    ScopeNeverOverClaims records ↔ LaterStampsGrantNoLess records := by
  constructor
  · intro h
    refine ⟨?_, ?_⟩
    · intro first later hstamps v hv c hc
      refine h.interest {c} ?_ v (by rw [hstamps]; exact List.mem_cons_of_mem _ hv) c
        (Finset.mem_singleton_self c)
      rw [observedInterestCovers_iff, hstamps]
      intro w hw d hd
      obtain rfl : first = w := Option.some.inj hw
      rwa [Finset.mem_singleton.mp hd]
    · intro first later hstamps v hv scope hscope
      refine h.evidence scope ?_ v (by rw [hstamps]; exact List.mem_cons_of_mem _ hv)
      rw [observedEvidenceScopeCovers_iff, hstamps]
      refine ⟨hscope.ne_unrecognized, ?_⟩
      intro w hw
      obtain rfl : first = w := Option.some.inj hw
      exact hscope
  · intro h
    refine ⟨?_, ?_⟩
    · intro I hcovers v hv c hc
      rw [observedInterestCovers_iff] at hcovers
      cases hstamps : stampValues (str "interest") records with
      | nil => exact absurd (hstamps ▸ hv) List.not_mem_nil
      | cons first later =>
        have hfirst := hcovers first (by rw [hstamps]; rfl) c hc
        rcases List.mem_cons.mp (hstamps ▸ hv) with rfl | hlater
        · exact hfirst
        · exact h.interest first later hstamps v hlater c hfirst
    · intro scope hcovers v hv
      rw [observedEvidenceScopeCovers_iff] at hcovers
      cases hstamps : stampValues (str "evidence") records with
      | nil => exact absurd (hstamps ▸ hv) List.not_mem_nil
      | cons first later =>
        have hfirst := hcovers.2 first (by rw [hstamps]; rfl)
        rcases List.mem_cons.mp (hstamps ▸ hv) with rfl | hlater
        · exact hfirst
        · exact h.evidence first later hstamps v hlater scope hfirst

/-! ## 7. Additions -/

/-- The second list has one more stamp of a kind than the first. -/
structure StampAdded (key : NimStr) (records records' : List MonitorRecord) where
  front : List NimStr
  back : List NimStr
  added : NimStr
  before : stampValues key records = front ++ back
  after : stampValues key records' = front ++ added :: back

/-- A further profile record with one stamp adds that stamp. -/
def StampAdded.ofRecord {key w : NimStr} (pre post : List MonitorRecord) (r : MonitorRecord)
    (h : stampValues key [r] = [w]) : StampAdded key (pre ++ post) (pre ++ r :: post) where
  front := stampValues key pre
  back := stampValues key post
  added := w
  before := stampValues_append key pre post
  after := by
    rw [List.append_cons, stampValues_append, stampValues_append, h, List.append_assoc]
    rfl

/-- The second list differs from the first in one stamp, whose value has one more
comma-separated piece, and that piece is no token of the vocabulary. -/
structure TokenAdded (key : NimStr) (vocabulary : NimStr → Prop)
    (records records' : List MonitorRecord) where
  front : List NimStr
  back : List NimStr
  value : NimStr
  value' : NimStr
  before : stampValues key records = front ++ value :: back
  after : stampValues key records' = front ++ value' :: back
  pre : List NimStr
  post : List NimStr
  piece : NimStr
  pieces : splitAt 44 value = pre ++ post
  pieces' : splitAt 44 value' = pre ++ piece :: post
  unrecognised : ¬ vocabulary (strip piece)

/-- The tokens an interest stamp can grant something with. -/
def InterestToken (tok : NimStr) : Prop :=
  (∃ c, tok = interestToken c) ∨ ∃ legacy, tok = legacyInterestToken legacy

/-- The tokens an evidence stamp can grant something with. -/
def EvidenceToken (tok : NimStr) : Prop :=
  ∃ scope, scope ≠ esUnrecognized ∧ tok = evidenceScopeToken scope

/-- No interest is covered afterwards that was not covered before. -/
def InterestNeverWidens (records records' : List MonitorRecord) : Prop :=
  ∀ I, observedInterestCovers (depFileFromOwnedRecords records') I = true →
    observedInterestCovers (depFileFromOwnedRecords records) I = true

/-- No evidence scope is covered afterwards that was not covered before. -/
def EvidenceNeverWidens (records records' : List MonitorRecord) : Prop :=
  ∀ scope, observedEvidenceScopeCovers (depFileFromOwnedRecords records') scope = true →
    observedEvidenceScopeCovers (depFileFromOwnedRecords records) scope = true

/-- A stamp that is added does no harm behind another one; in front of them all, where it grants
no more than the one that was first. -/
theorem interestNeverWidens_iff {records records' : List MonitorRecord}
    (a : StampAdded (str "interest") records records') :
    InterestNeverWidens records records' ↔
      a.front ≠ [] ∨ ∀ v ∈ a.back.head?, ∀ c, GrantsInterest a.added c → GrantsInterest v c := by
  unfold InterestNeverWidens
  simp only [observedInterestCovers_iff, a.before, a.after]
  cases a.front with
  | cons v front =>
    refine iff_of_true ?_ (Or.inl (by simp))
    exact fun I h => h
  | nil =>
    simp only [List.nil_append, List.head?_cons, Option.mem_some_iff, forall_eq', ne_eq,
      not_true_eq_false, false_or]
    constructor
    · intro h v hv c hc
      refine h {c} ?_ v hv c (Finset.mem_singleton_self c)
      intro d hd
      rwa [Finset.mem_singleton.mp hd]
    · intro h I hI v hv c hc
      exact h v hv c (hI c hc)

theorem evidenceNeverWidens_iff {records records' : List MonitorRecord}
    (a : StampAdded (str "evidence") records records') :
    EvidenceNeverWidens records records' ↔
      a.front ≠ [] ∨
        ∀ v ∈ a.back.head?, ∀ scope, GrantsScope a.added scope → GrantsScope v scope := by
  unfold EvidenceNeverWidens
  simp only [observedEvidenceScopeCovers_iff, a.before, a.after]
  cases a.front with
  | cons v front =>
    refine iff_of_true ?_ (Or.inl (by simp))
    exact fun scope h => h
  | nil =>
    simp only [List.nil_append, List.head?_cons, Option.mem_some_iff, forall_eq', ne_eq,
      not_true_eq_false, false_or]
    constructor
    · intro h v hv scope hscope
      exact (h scope ⟨hscope.ne_unrecognized, hscope⟩).2 v hv
    · rintro h scope ⟨hne, hscope⟩
      exact ⟨hne, fun v hv => h v hv scope hscope⟩

/-- One more piece that is no token takes nothing away from what the other pieces say, except that
it may be the fence; and it adds nothing. -/
theorem GrantsInterest.of_piece_added {value value' piece : NimStr} {pre post : List NimStr}
    (hpieces : splitAt 44 value = pre ++ post) (hpieces' : splitAt 44 value' = pre ++ piece :: post)
    (hpiece : ¬ InterestToken (strip piece)) {c : EventCategory} (h : GrantsInterest value' c) :
    GrantsInterest value c := by
  have hkeep : ∀ tok, HasToken value tok → HasToken value' tok := by
    rintro tok ⟨p, hp, htok⟩
    refine ⟨p, ?_, htok⟩
    rw [hpieces, List.mem_append] at hp
    rw [hpieces', List.mem_append, List.mem_cons]
    exact hp.elim Or.inl fun h => Or.inr (Or.inr h)
  have hback : ∀ tok, InterestToken tok → HasToken value' tok → HasToken value tok := by
    rintro tok hknown ⟨p, hp, htok⟩
    rw [hpieces', List.mem_append, List.mem_cons] at hp
    rcases hp with hp | rfl | hp
    · exact ⟨p, by rw [hpieces]; exact List.mem_append_left _ hp, htok⟩
    · exact absurd (htok ▸ hknown) hpiece
    · exact ⟨p, by rw [hpieces]; exact List.mem_append_right _ hp, htok⟩
  rcases h with h | ⟨hopen, l, hl, hc⟩
  · exact Or.inl (hback _ (Or.inl ⟨c, rfl⟩) h)
  · exact Or.inr ⟨fun hf => hopen (hkeep _ hf), l, hback _ (Or.inr ⟨l, rfl⟩) hl, hc⟩

theorem interestNeverWidens_of_token {records records' : List MonitorRecord}
    (a : TokenAdded (str "interest") InterestToken records records') :
    InterestNeverWidens records records' := by
  unfold InterestNeverWidens
  simp only [observedInterestCovers_iff, a.before, a.after]
  cases a.front with
  | cons v front => exact fun I h => h
  | nil =>
    simp only [List.nil_append, List.head?_cons, Option.mem_some_iff, forall_eq']
    exact fun I h c hc => (h c hc).of_piece_added a.pieces a.pieces' a.unrecognised

/-- A value of several pieces is no evidence scope. -/
theorem not_grantsScope_of_pieces {value : NimStr} (h : 2 ≤ (splitAt 44 value).length)
    (scope : EvidenceScope) : ¬ GrantsScope value scope := by
  rintro ⟨s, hs, htok, _⟩
  have hlen := congrArg List.length (map_strip_splitAt_strip value)
  rw [List.length_map, List.length_map, htok] at hlen
  have hone : (splitAt 44 (evidenceScopeToken s)).length = 1 := by
    cases s with
    | esFull => decide
    | esReadsOnly => decide
    | esUnrecognized => exact absurd rfl hs
  omega

theorem evidenceNeverWidens_of_token {records records' : List MonitorRecord}
    (a : TokenAdded (str "evidence") EvidenceToken records records') :
    EvidenceNeverWidens records records' := by
  have hnone : ∀ scope, ¬ GrantsScope a.value' scope := by
    refine not_grantsScope_of_pieces ?_
    have hne := splitAt_ne_nil 44 a.value
    rw [a.pieces] at hne
    have hlen := List.length_pos_of_ne_nil hne
    rw [a.pieces', List.length_append, List.length_cons]
    rw [List.length_append] at hlen
    omega
  unfold EvidenceNeverWidens
  simp only [observedEvidenceScopeCovers_iff, a.before, a.after]
  cases a.front with
  | cons v front => exact fun scope h => h
  | nil =>
    simp only [List.nil_append, List.head?_cons, Option.mem_some_iff, forall_eq']
    rintro scope ⟨_, hscope⟩
    exact absurd hscope (hnone scope)

/-- **When the stamps never over-claim.**  What is covered is granted by every stamp exactly when
the later stamps grant no less than the first; a further stamp widens nothing exactly when it is
not the first one or grants no more than the one that was; an unrecognised token never does. -/
theorem scopeStamps_iff (records records' : List MonitorRecord) :
    (ScopeNeverOverClaims records ↔ LaterStampsGrantNoLess records) ∧
      (∀ a : StampAdded (str "interest") records records',
        InterestNeverWidens records records' ↔ a.front ≠ [] ∨
          ∀ v ∈ a.back.head?, ∀ c, GrantsInterest a.added c → GrantsInterest v c) ∧
      (∀ a : StampAdded (str "evidence") records records',
        EvidenceNeverWidens records records' ↔ a.front ≠ [] ∨
          ∀ v ∈ a.back.head?, ∀ scope, GrantsScope a.added scope → GrantsScope v scope) ∧
      (∀ _ : TokenAdded (str "interest") InterestToken records records',
        InterestNeverWidens records records') ∧
      ∀ _ : TokenAdded (str "evidence") EvidenceToken records records',
        EvidenceNeverWidens records records' :=
  ⟨scopeNeverOverClaims_iff records, interestNeverWidens_iff, evidenceNeverWidens_iff,
    interestNeverWidens_of_token, evidenceNeverWidens_of_token⟩

/-- A backend-profile record with this detail. -/
def profileStamp (detail : NimStr) : MonitorRecord where
  kind := mrBackendProfile
  observationKind := .moBackendProfile
  detail := detail

def wideStamp : MonitorRecord :=
  profileStamp (str "backend=linux-preload-hooks;interest=file-reads,lib;evidence=full")

def narrowStamp : MonitorRecord :=
  profileStamp (str "backend=linux-preload-hooks;interest=lib;evidence=reads-only")

/-- **A narrow stamp behind a wide one is not seen, and a wide one in front of it hides it.** -/
theorem narrowStamp_overClaimed :
    ¬ ScopeNeverOverClaims [wideStamp, narrowStamp] ∧
      observedInterestCovers (depFileFromOwnedRecords [narrowStamp]) {ecFileReads} = false ∧
      observedInterestCovers (depFileFromOwnedRecords [wideStamp, narrowStamp]) {ecFileReads} =
        true ∧
      observedEvidenceScopeCovers (depFileFromOwnedRecords [narrowStamp]) esFull = false ∧
      observedEvidenceScopeCovers (depFileFromOwnedRecords [wideStamp, narrowStamp]) esFull =
        true := by
  have hfixed : (observedInterestCovers (depFileFromOwnedRecords [narrowStamp]) {ecFileReads} =
        false ∧
      observedInterestCovers (depFileFromOwnedRecords [wideStamp, narrowStamp]) {ecFileReads} =
        true ∧
      observedEvidenceScopeCovers (depFileFromOwnedRecords [narrowStamp]) esFull = false ∧
      observedEvidenceScopeCovers (depFileFromOwnedRecords [wideStamp, narrowStamp]) esFull =
        true) ∧
      str "lib" ∈ stampValues (str "interest") [wideStamp, narrowStamp] ∧
      ecFileReads ∉ stampInterest (str "lib") := by
    decide +kernel
  refine ⟨?_, hfixed.1⟩
  intro h
  refine hfixed.2.2 (mem_stampInterest.mpr ?_)
  exact h.interest {ecFileReads} hfixed.1.2.1 _ hfixed.2.1 ecFileReads
    (Finset.mem_singleton_self ecFileReads)

end IoMon
