/-
# Reading a capability profile back

A profile is written as one record for itself and one for each gap, each a `;`-joined list of
`key=value` parts.  The reason of a gap is free text and stands last, so that nothing can be
swallowed by it; the reader splits the whole detail at every `;` all the same.  A reason that holds
one is cut there, and what follows is read as further parts.

  * `parseGapDetail_gapDetail_iff` -- a gap reads back exactly when its reason holds no `;`;
  * `profileFromRecords_declared` -- what the profile record itself says always reads back;
  * `profileSurvives_iff` -- the profile survives exactly when it has a gap, since a profile
    without one is given the build's own, and no reason holds a `;`.
-/
import IoMon.Capabilities

namespace IoMon

open ByteText MonitorRecordKind MonitorObservationKind MonitorBackendFamily MonitorCapability

/-! ## 1. Identifiers -/

/-- A text as one number: comparing two of those evaluates each text once. -/
def textNumber (s : NimStr) : Nat := s.foldl (fun n c => 257 * n + c.toNat) 0

/-- What the identifiers and the truth values are: told apart, and without a separator. -/
theorem identifierTexts :
    (∀ f : MonitorBackendFamily,
      backendFamilyFromId (backendFamilyId f) = f ∧ 59 ∉ backendFamilyId f) ∧
    (MonitorCapability.all.map fun c => textNumber (capabilityId c)).Nodup ∧
    (∀ c : MonitorCapability, 59 ∉ capabilityId c ∧ 44 ∉ capabilityId c) ∧
    ∀ b : Bool, 59 ∉ boolText b ∧ (boolText b == str "true") = b := by
  refine ⟨fun f => ?_, ?_, fun c => ?_, fun b => ?_⟩
  · cases f <;> decide +kernel
  · decide +kernel
  · cases c <;> decide +kernel
  · cases b <;> decide +kernel

theorem backendFamilyFromId_id (f : MonitorBackendFamily) :
    backendFamilyFromId (backendFamilyId f) = f := (identifierTexts.1 f).1

theorem mem_all (c : MonitorCapability) : c ∈ MonitorCapability.all := by
  cases c <;> decide

theorem capabilityId_injective : Function.Injective capabilityId := by
  intro c c' h
  exact List.inj_on_of_nodup_map identifierTexts.2.1 (mem_all c) (mem_all c')
    (congrArg textNumber h)

/-- Every identifier is found again. -/
theorem tryCapabilityFromId_id (c : MonitorCapability) :
    tryCapabilityFromId (capabilityId c) = some c := by
  rw [tryCapabilityFromId]
  cases hfind : MonitorCapability.all.find? fun c' => capabilityId c' == capabilityId c with
  | none => exact absurd (beq_self_eq_true _) (List.find?_eq_none.mp hfind c (mem_all c))
  | some c' =>
    have hfound := List.find?_some hfind
    rw [capabilityId_injective (beq_iff_eq.mp hfound)]

theorem backendFamilyId_plain (f : MonitorBackendFamily) : 59 ∉ backendFamilyId f :=
  (identifierTexts.1 f).2

theorem capabilityId_plain (c : MonitorCapability) :
    59 ∉ capabilityId c ∧ 44 ∉ capabilityId c := identifierTexts.2.2.1 c

theorem boolText_plain (b : Bool) : 59 ∉ boolText b := (identifierTexts.2.2.2 b).1

theorem boolText_eq_true (b : Bool) : (boolText b == str "true") = b := (identifierTexts.2.2.2 b).2

/-- The texts between the parts of a detail, and the keys of the parts. -/
structure DetailTexts : Prop where
  gapParts : str "backend=" = str "backend" ++ [61] ∧
    str ";capability=" = 59 :: (str "capability" ++ [61]) ∧
    str ";required=" = 59 :: (str "required" ++ [61]) ∧
    str ";input=" = 59 :: (str "input" ++ [61]) ∧
    str ";reason=" = 59 :: (str "reason" ++ [61])
  profileParts : str ";supported=" = 59 :: (str "supported" ++ [61]) ∧
    str ";evidenceComplete=" = 59 :: (str "evidenceComplete" ++ [61])
  gapKeys : str "capability" ≠ str "backend" ∧ str "required" ≠ str "backend" ∧
    str "required" ≠ str "capability" ∧ str "input" ≠ str "backend" ∧
    str "input" ≠ str "capability" ∧ str "input" ≠ str "required"
  reasonKey : str "reason" ≠ str "backend" ∧ str "reason" ≠ str "capability" ∧
    str "reason" ≠ str "required" ∧ str "reason" ≠ str "input"
  profileKeys : str "supported" ≠ str "backend" ∧ str "required" ≠ str "supported" ∧
    str "evidenceComplete" ≠ str "backend" ∧ str "evidenceComplete" ≠ str "supported" ∧
    str "evidenceComplete" ≠ str "required"
  plain : ∀ key ∈ [str "backend", str "capability", str "required", str "input", str "reason",
    str "supported", str "evidenceComplete"], 59 ∉ key ∧ 61 ∉ key
  comma : str "," = [44]

theorem detailTexts : DetailTexts where
  gapParts := by decide +kernel
  profileParts := by decide +kernel
  gapKeys := by decide +kernel
  reasonKey := by decide +kernel
  profileKeys := by decide +kernel
  plain := by decide +kernel
  comma := by decide +kernel

/-! ## 2. Gaps -/

/-- A part with a known key is applied by that key. -/
theorem splitFirst_part {key : NimStr} (h : 61 ∉ key) (value : NimStr) :
    splitFirst 61 (key ++ 61 :: value) = some (key, value) := splitFirst_append 61 value key h

theorem part_plain {key value : NimStr} (hkey : 59 ∉ key) (hvalue : 59 ∉ value) :
    59 ∉ key ++ 61 :: value := by
  rw [List.mem_append, List.mem_cons, not_or, not_or]
  exact ⟨hkey, by decide, hvalue⟩

/-- The detail as its parts: four that hold no `;`, and the reason. -/
theorem splitAt_gapDetail (g : MonitorCapabilityGap) :
    splitAt 59 (gapDetail g) =
      [str "backend" ++ 61 :: backendFamilyId g.backendFamily,
        str "capability" ++ 61 :: capabilityId g.capability,
        str "required" ++ 61 :: boolText g.required,
        str "input" ++ 61 :: boolText g.inputChannel] ++
      splitAt 59 (str "reason" ++ 61 :: g.reason) := by
  obtain ⟨hbackend, hcapability, hrequired, hinput, hreason⟩ := detailTexts.gapParts
  have hplain := detailTexts.plain
  have hpart : ∀ key value : NimStr, 59 ∉ key → 59 ∉ value →
      splitAt 59 (key ++ 61 :: value) = [key ++ 61 :: value] :=
    fun key value hkey hvalue => splitAt_of_not_mem 59 _ (part_plain hkey hvalue)
  have hdetail : gapDetail g = (str "backend" ++ 61 :: backendFamilyId g.backendFamily) ++ 59 ::
      ((str "capability" ++ 61 :: capabilityId g.capability) ++ 59 ::
      ((str "required" ++ 61 :: boolText g.required) ++ 59 ::
      ((str "input" ++ 61 :: boolText g.inputChannel) ++ 59 ::
      (str "reason" ++ 61 :: g.reason)))) := by
    rw [gapDetail, hbackend, hcapability, hrequired, hinput, hreason]
    simp only [List.append_assoc, List.cons_append, List.nil_append]
  rw [hdetail, splitAt_append_sep, splitAt_append_sep, splitAt_append_sep, splitAt_append_sep,
    hpart _ _ (hplain _ (by simp)).1 (backendFamilyId_plain _),
    hpart _ _ (hplain _ (by simp)).1 (capabilityId_plain _).1,
    hpart _ _ (hplain _ (by simp)).1 (boolText_plain _),
    hpart _ _ (hplain _ (by simp)).1 (boolText_plain _)]
  rfl

/-- What the parser knows when it comes to the reason. -/
theorem parseGapDetail_gapDetail (g : MonitorCapabilityGap) :
    parseGapDetail (gapDetail g) =
      ((splitAt 59 (str "reason" ++ 61 :: g.reason)).foldlM applyGapPart
        ({ g with reason := [] }, true)).map fun gap =>
          if gap.2 then gap.1
          else
            { gap.1 with
              inputChannel := decide (gap.1.capability ∈ InputChannelCapabilities) } := by
  obtain ⟨h1, h2, h3, h4, h5, h6⟩ := detailTexts.gapKeys
  have hplain := detailTexts.plain
  have hno : 61 ∉ str "backend" ∧ 61 ∉ str "capability" ∧ 61 ∉ str "required" ∧
      61 ∉ str "input" :=
    ⟨(hplain _ (by simp)).2, (hplain _ (by simp)).2, (hplain _ (by simp)).2,
      (hplain _ (by simp)).2⟩
  rw [parseGapDetail, splitAt_gapDetail, List.foldlM_append]
  simp only [List.foldlM_cons, List.foldlM_nil, applyGapPart, splitFirst_part hno.1,
    splitFirst_part hno.2.1, splitFirst_part hno.2.2.1, splitFirst_part hno.2.2.2, if_true,
    if_neg h1, if_neg h2, if_neg h3, if_neg h4, if_neg h5, if_neg h6, tryCapabilityFromId_id,
    backendFamilyFromId_id, boolText_eq_true, Option.map_some, Option.bind_eq_bind,
    Option.bind_some, Option.pure_def]

/-- No part the parser applies puts a `;` into the reason. -/
theorem applyGapPart_reason {gap gap' : MonitorCapabilityGap × Bool} {part : NimStr}
    (hpart : 59 ∉ part) (hgap : 59 ∉ gap.1.reason) (h : applyGapPart gap part = some gap') :
    59 ∉ gap'.1.reason := by
  unfold applyGapPart at h
  split at h
  · exact Option.some.inj h ▸ hgap
  · rename_i key value hsplit
    have hvalue : 59 ∉ value := fun hc => hpart (mem_of_splitFirst hsplit hc)
    split at h
    · exact Option.some.inj h ▸ hgap
    split at h
    · obtain ⟨c, -, rfl⟩ := Option.map_eq_some_iff.mp h
      exact hgap
    split at h
    · exact Option.some.inj h ▸ hgap
    split at h
    · exact Option.some.inj h ▸ hgap
    split at h
    · exact Option.some.inj h ▸ hvalue
    · exact Option.some.inj h ▸ hgap

theorem foldlM_applyGapPart_reason {parts : List NimStr} (hparts : ∀ p ∈ parts, 59 ∉ p) :
    ∀ {gap gap' : MonitorCapabilityGap × Bool}, 59 ∉ gap.1.reason →
      parts.foldlM applyGapPart gap = some gap' → 59 ∉ gap'.1.reason := by
  induction parts with
  | nil =>
    intro gap gap' hgap h
    rw [List.foldlM_nil] at h
    exact Option.some.inj h ▸ hgap
  | cons part parts ih =>
    intro gap gap' hgap h
    rw [List.foldlM_cons] at h
    obtain ⟨mid, hmid, hrest⟩ := Option.bind_eq_some_iff.mp h
    have hreason := applyGapPart_reason (hparts part (List.mem_cons_self ..)) hgap hmid
    exact ih (fun p hp => hparts p (List.mem_cons_of_mem _ hp)) hreason hrest

/-- **Whatever is parsed has a reason without `;`.** -/
theorem parseGapDetail_reason {detail : NimStr} {g : MonitorCapabilityGap}
    (h : parseGapDetail detail = some g) : 59 ∉ g.reason := by
  obtain ⟨gap, hgap, rfl⟩ := Option.map_eq_some_iff.mp h
  have hreason := foldlM_applyGapPart_reason (fun p hp => not_mem_of_mem_splitAt hp)
    List.not_mem_nil hgap
  split
  · exact hreason
  · exact hreason

/-- **A gap reads back exactly when its reason holds no `;`.** -/
theorem parseGapDetail_gapDetail_iff (g : MonitorCapabilityGap) :
    parseGapDetail (gapDetail g) = some g ↔ 59 ∉ g.reason := by
  refine ⟨parseGapDetail_reason, fun hreason => ?_⟩
  obtain ⟨hsep, hno⟩ := detailTexts.plain (str "reason") (by simp)
  have hwhole : 59 ∉ str "reason" ++ 61 :: g.reason := part_plain hsep hreason
  have hkeys := detailTexts.reasonKey
  rw [parseGapDetail_gapDetail, splitAt_of_not_mem 59 _ hwhole]
  simp only [List.foldlM_cons, List.foldlM_nil, applyGapPart, splitFirst_part hno,
    if_neg hkeys.1, if_neg hkeys.2.1, if_neg hkeys.2.2.1, if_neg hkeys.2.2.2, if_true,
    Option.bind_eq_bind, Option.bind_some, Option.pure_def, Option.map_some]

/-! ## 3. The profile record -/

theorem capabilityList_toFinset (s : Finset MonitorCapability) :
    (capabilityList s).toFinset = s := by
  ext c
  rw [List.mem_toFinset, capabilityList, List.mem_filter, decide_eq_true_iff]
  exact ⟨fun h => h.2, fun h => ⟨mem_all c, h⟩⟩

/-- A joined list of identifiers reads back as the set. -/
theorem parseCapabilityList_join (s : Finset MonitorCapability) :
    parseCapabilityList (joinStr (str ",") ((capabilityList s).map capabilityId)) = s := by
  have hread : ∀ cs : List MonitorCapability,
      (cs.map capabilityId).filterMap tryCapabilityFromId = cs := by
    intro cs
    rw [List.filterMap_map]
    induction cs with
    | nil => rfl
    | cons c cs ih =>
      rw [List.filterMap_cons, Function.comp_apply, tryCapabilityFromId_id]
      exact congrArg (c :: ·) ih
  have hlist := capabilityList_toFinset s
  rw [parseCapabilityList, detailTexts.comma]
  cases hcs : capabilityList s with
  | nil =>
    -- the list of no capabilities is the empty text, which names none
    rw [hcs] at hlist
    rw [← hlist]
    decide +kernel
  | cons c cs =>
    have hplain : ∀ p ∈ (c :: cs).map capabilityId, 44 ∉ p := by
      intro p hp
      obtain ⟨c', -, rfl⟩ := List.mem_map.mp hp
      exact (capabilityId_plain c').2
    rw [splitAt_joinStr _ (by simp) hplain, hread, ← hcs, hlist]

/-- **What the profile record says reads back**, over whatever the build's own profile was. -/
theorem applyProfileDetail_record (d p : MonitorBackendProfile) :
    applyProfileDetail d (backendProfileRecord p).detail =
      { d with backendFamily := p.backendFamily
               supportedCapabilities := p.supportedCapabilities
               requiredCapabilities := p.requiredCapabilities
               evidenceComplete := p.evidenceComplete } := by
  obtain ⟨hbackend, -, hrequired, -, -⟩ := detailTexts.gapParts
  obtain ⟨hsupported, hcomplete⟩ := detailTexts.profileParts
  obtain ⟨h1, h2, h3, h4, h5⟩ := detailTexts.profileKeys
  have hplain := detailTexts.plain
  have hno : 61 ∉ str "backend" ∧ 61 ∉ str "supported" ∧ 61 ∉ str "required" ∧
      61 ∉ str "evidenceComplete" :=
    ⟨(hplain _ (by simp)).2, (hplain _ (by simp)).2, (hplain _ (by simp)).2,
      (hplain _ (by simp)).2⟩
  have hlist : ∀ s : Finset MonitorCapability,
      59 ∉ joinStr (str ",") ((capabilityList s).map capabilityId) := by
    refine fun s => not_mem_joinStr (by rw [detailTexts.comma]; decide) _ fun part hpart => ?_
    obtain ⟨c, -, rfl⟩ := List.mem_map.mp hpart
    exact (capabilityId_plain c).1
  have hpart : ∀ key value : NimStr, 59 ∉ key → 59 ∉ value →
      splitAt 59 (key ++ 61 :: value) = [key ++ 61 :: value] :=
    fun key value hkey hvalue => splitAt_of_not_mem 59 _ (part_plain hkey hvalue)
  have hdetail : (backendProfileRecord p).detail =
      (str "backend" ++ 61 :: backendFamilyId p.backendFamily) ++ 59 ::
      ((str "supported" ++ 61 ::
        joinStr (str ",") ((capabilityList p.supportedCapabilities).map capabilityId)) ++ 59 ::
      ((str "required" ++ 61 ::
        joinStr (str ",") ((capabilityList p.requiredCapabilities).map capabilityId)) ++ 59 ::
      (str "evidenceComplete" ++ 61 :: boolText p.evidenceComplete))) := by
    rw [backendProfileRecord, hbackend, hsupported, hrequired, hcomplete]
    simp only [List.append_assoc, List.cons_append, List.nil_append]
  rw [applyProfileDetail, hdetail, splitAt_append_sep, splitAt_append_sep, splitAt_append_sep,
    hpart _ _ (hplain _ (by simp)).1 (backendFamilyId_plain _),
    hpart _ _ (hplain _ (by simp)).1 (hlist _), hpart _ _ (hplain _ (by simp)).1 (hlist _),
    hpart _ _ (hplain _ (by simp)).1 (boolText_plain _)]
  simp only [List.singleton_append, List.foldl_cons, List.foldl_nil, applyProfilePart,
    splitFirst_part hno.1, splitFirst_part hno.2.1, splitFirst_part hno.2.2.1,
    splitFirst_part hno.2.2.2, if_true, if_neg h1, if_neg detailTexts.gapKeys.2.1, if_neg h2,
    if_neg h3, if_neg h4, if_neg h5, backendFamilyFromId_id, parseCapabilityList_join,
    boolText_eq_true]

/-! ## 4. The whole profile -/

/-- The gaps that can be parsed, in order. -/
def readGaps (gaps : List MonitorCapabilityGap) : List MonitorCapabilityGap :=
  gaps.filterMap fun g => parseGapDetail (gapDetail g)

theorem scan_gapRecords (s : ProfileScan) (gaps : List MonitorCapabilityGap) :
    (gaps.map capabilityGapRecord).foldl (scanProfileRecord ∅) s =
      { s with gaps := s.gaps ++ readGaps gaps } := by
  induction gaps generalizing s with
  | nil => rw [readGaps, List.filterMap_nil, List.append_nil]; rfl
  | cons g gaps ih =>
    have hstep : scanProfileRecord ∅ s (capabilityGapRecord g) =
        { s with gaps := s.gaps ++ (parseGapDetail (gapDetail g)).toList } := by
      rw [scanProfileRecord, capabilityGapRecord]
      cases parseGapDetail (gapDetail g) with
      | none => rw [Option.toList_none, List.append_nil]
      | some gap => exact if_neg fun h => absurd h.1 (Finset.notMem_empty _)
    rw [List.map_cons, List.foldl_cons, hstep, ih]
    simp only [List.append_assoc, readGaps]
    cases hparse : parseGapDetail (gapDetail g) with
    | none => rw [List.filterMap_cons, hparse]; rfl
    | some gap => rw [List.filterMap_cons, hparse]; rfl

/-- **What comes back**: the record's own statements, and the gaps that could be parsed, or the
build's own gaps where there are none. -/
theorem profileFromRecords_declared (p : MonitorBackendProfile) :
    profileFromRecords (profileRecords p) ∅ =
      { defaultHooksMonitorProfile ∅ with
        backendFamily := p.backendFamily
        supportedCapabilities := p.supportedCapabilities
        requiredCapabilities := p.requiredCapabilities
        evidenceComplete := p.evidenceComplete
        gaps := if readGaps p.gaps = [] then (defaultHooksMonitorProfile ∅).gaps
          else readGaps p.gaps } := by
  have hfirst : scanProfileRecord ∅ ⟨defaultHooksMonitorProfile ∅, false, []⟩
      (backendProfileRecord p) =
        ⟨applyProfileDetail (defaultHooksMonitorProfile ∅) (backendProfileRecord p).detail,
          true, []⟩ := rfl
  have hnone : capabilityList (∅ : Finset MonitorCapability) = [] := by decide
  rw [profileFromRecords, profileRecords, List.foldl_cons, hfirst, scan_gapRecords, hnone,
    applyProfileDetail_record, List.foldl_nil]
  simp only [List.nil_append, Bool.true_and, Bool.not_eq_true', List.isEmpty_eq_false_iff, ne_eq]
  by_cases hgaps : readGaps p.gaps = []
  · rw [if_neg (not_not.mpr hgaps), if_pos hgaps]
  · rw [if_pos hgaps, if_neg hgaps]

/-- The profile that comes back makes the same statements. -/
structure SurvivesSerialisation (p : MonitorBackendProfile) : Prop where
  family : (profileFromRecords (profileRecords p) ∅).backendFamily = p.backendFamily
  supported : (profileFromRecords (profileRecords p) ∅).supportedCapabilities =
    p.supportedCapabilities
  required : (profileFromRecords (profileRecords p) ∅).requiredCapabilities =
    p.requiredCapabilities
  evidenceComplete : (profileFromRecords (profileRecords p) ∅).evidenceComplete =
    p.evidenceComplete
  gaps : (profileFromRecords (profileRecords p) ∅).gaps = p.gaps

/-- The build's own gaps are not lost in parsing. -/
theorem readGaps_default_ne_nil : readGaps (defaultHooksMonitorProfile ∅).gaps ≠ [] := by
  decide +kernel

theorem readGaps_reason {gaps : List MonitorCapabilityGap} {g : MonitorCapabilityGap}
    (h : g ∈ readGaps gaps) : 59 ∉ g.reason := by
  obtain ⟨g', -, hparse⟩ := List.mem_filterMap.mp h
  exact parseGapDetail_reason hparse

theorem readGaps_eq_self {gaps : List MonitorCapabilityGap} (h : ∀ g ∈ gaps, 59 ∉ g.reason) :
    readGaps gaps = gaps := by
  induction gaps with
  | nil => rfl
  | cons g gaps ih =>
    have hg := (parseGapDetail_gapDetail_iff g).mpr (h g (List.mem_cons_self ..))
    have hrest := ih fun g' hg' => h g' (List.mem_cons_of_mem _ hg')
    rw [readGaps] at hrest ⊢
    rw [List.filterMap_cons, hg, hrest]

/-- Gaps that come back are some, and have been parsed. -/
theorem SurvivesSerialisation.gaps_plain {p : MonitorBackendProfile}
    (h : SurvivesSerialisation p) : p.gaps ≠ [] ∧ ∀ g ∈ p.gaps, 59 ∉ g.reason := by
  have hgaps := h.gaps
  rw [profileFromRecords_declared p] at hgaps
  dsimp only at hgaps
  by_cases hread : readGaps p.gaps = []
  · -- the build's own gaps came back, and they would have been parsed
    rw [if_pos hread] at hgaps
    rw [← hgaps] at hread
    exact absurd hread readGaps_default_ne_nil
  · rw [if_neg hread] at hgaps
    exact ⟨hgaps ▸ hread, fun g hg => readGaps_reason (hgaps.symm ▸ hg)⟩

/-- **When a profile survives.**  Family, capability lists and verdict always read back; the gaps
do exactly when there is one and no reason holds a `;`, and so does each gap on its own. -/
theorem profileSurvives_iff (p : MonitorBackendProfile) (g : MonitorCapabilityGap) :
    (parseGapDetail (gapDetail g) = some g ↔ 59 ∉ g.reason) ∧
      (SurvivesSerialisation p ↔ p.gaps ≠ [] ∧ ∀ g ∈ p.gaps, 59 ∉ g.reason) := by
  refine ⟨parseGapDetail_gapDetail_iff g, ⟨fun h => h.gaps_plain, ?_⟩⟩
  rintro ⟨hne, hreason⟩
  have hback := profileFromRecords_declared p
  have hread := readGaps_eq_self hreason
  refine ⟨?_, ?_, ?_, ?_, ?_⟩ <;> rw [hback]
  dsimp only
  rw [hread, if_neg hne]

/-- The gap the Linux profile lists for EndpointSecurity. -/
def endpointSecurityGap : MonitorCapabilityGap where
  backendFamily := mbfLinuxPreloadHooks
  capability := mcapEndpointSecurity
  required := false
  inputChannel := false
  reason := linuxUnsupportedReason mcapEndpointSecurity

/-- **The Linux profile does not survive**: the reason of that gap holds a `;`, and is cut there. -/
theorem linuxProfile_does_not_survive :
    endpointSecurityGap ∈ (linuxPreloadMonitorProfile ∅).gaps ∧
      parseGapDetail (gapDetail endpointSecurityGap) =
        some { endpointSecurityGap with reason := str "EndpointSecurity is macOS-only" } ∧
      ¬ SurvivesSerialisation (linuxPreloadMonitorProfile ∅) := by
  have hgap : endpointSecurityGap ∈ (linuxPreloadMonitorProfile ∅).gaps := by decide +kernel
  refine ⟨hgap, by decide +kernel, fun h => ?_⟩
  exact h.gaps_plain.2 _ hgap (by decide +kernel)

end IoMon
