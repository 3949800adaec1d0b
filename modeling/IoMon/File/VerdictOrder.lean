/-
# VerdictOrder -- can one more record make a depfile complete?

`depFileFromRecords` folds two things into its verdict.  Loss counts up, so no further record can
take it back.  The backend profile is read by overwriting: each `evidenceComplete=` or `supported=`
part of each backend-profile record replaces what was said before.  The stamps of the same records
(`interest=`, `evidence=`) are taken from the FIRST record that carries one; these two fields are
taken from the LAST.  So a second profile record can withdraw a gap that the first one declared.

  * `complete_iff_lastWords` -- each of the two fields has a last word, and the verdict is read off
    the two last words and the loss records: silence is good, since the build's own profile is
    complete;
  * `lastWord_insert` -- a record inserted between two lists has the last word if it says something
    and nothing behind it does;
  * `raisesVerdict_iff`, `verdict_antitone_iff` -- an inserted record raises the verdict exactly if
    it is a profile record that overrides a bad last word by a good one while nothing else is wrong;
  * `second_profile_raises` -- such a record.
-/
import IoMon.File.RoundTrip

namespace IoMon

open ByteText MonitorRecordKind MonitorObservationKind MonitorCompleteness

/-! ## 1. What a part says -/

/-- What a part says about the field `key`, if it is a part of that field: whether its value is
good. -/
def partSays (key : NimStr) (good : NimStr → Bool) (part : NimStr) : Option Bool :=
  match splitFirst 61 part with
  | none => none
  | some (k, value) => if k = key then some (good value) else none

/-- The capabilities include every input channel a depfile requires. -/
def coversInputs (supported : Finset MonitorCapability) : Bool :=
  (capabilityList InputEvidenceCapabilities).all fun c => decide (c ∈ supported)

def saysComplete (part : NimStr) : Option Bool :=
  partSays (str "evidenceComplete") (fun value => value == str "true") part

def saysSupported (part : NimStr) : Option Bool :=
  partSays (str "supported") (fun value => coversInputs (parseCapabilityList value)) part

/-- The parts of the backend-profile records of a list, in order. -/
def profileParts (records : List MonitorRecord) : List NimStr :=
  (profileDetails records).flatMap (splitAt 59)

/-- The last word of a list of records on a field. -/
def lastWord (word : NimStr → Option Bool) (records : List MonitorRecord) : Option Bool :=
  ((profileParts records).filterMap word).getLast?

theorem applyProfilePart_evidenceComplete (p : MonitorBackendProfile) (part : NimStr) :
    (applyProfilePart p part).evidenceComplete = (saysComplete part).getD p.evidenceComplete := by
  unfold applyProfilePart saysComplete partSays
  cases splitFirst 61 part with
  | none => rfl
  | some pair =>
      obtain ⟨key, value⟩ := pair
      dsimp only
      by_cases hkey : key = str "evidenceComplete"
      · subst hkey
        rw [if_neg (by decide), if_neg (by decide), if_neg (by decide), if_pos rfl, if_pos rfl]
        rfl
      · rw [if_neg hkey, if_neg hkey]
        split
        · rfl
        · split
          · rfl
          · split <;> rfl

theorem applyProfilePart_coversInputs (p : MonitorBackendProfile) (part : NimStr) :
    coversInputs (applyProfilePart p part).supportedCapabilities =
      (saysSupported part).getD (coversInputs p.supportedCapabilities) := by
  unfold applyProfilePart saysSupported partSays
  cases splitFirst 61 part with
  | none => rfl
  | some pair =>
      obtain ⟨key, value⟩ := pair
      dsimp only
      by_cases hkey : key = str "supported"
      · subst hkey
        rw [if_neg (by decide), if_pos rfl, if_pos rfl]
        rfl
      · rw [if_neg hkey, if_neg hkey]
        split
        · rfl
        · split
          · rfl
          · split <;> rfl

/-! ## 2. The verdict in last words -/

/-- **A field that parts overwrite holds its last word.** -/
theorem foldl_applyProfilePart (field : MonitorBackendProfile → Bool)
    {word : NimStr → Option Bool}
    (hstep : ∀ p part, field (applyProfilePart p part) = (word part).getD (field p))
    (parts : List NimStr) (p : MonitorBackendProfile) :
    field (parts.foldl applyProfilePart p) = ((parts.filterMap word).getLast?).getD (field p) := by
  induction parts using List.reverseRecOn with
  | nil => rfl
  | append_singleton parts part ih =>
      rw [List.foldl_append, List.foldl_cons, List.foldl_nil, hstep, ih, List.filterMap_append]
      cases hstated : word part with
      | none => simp [hstated]
      | some b => simp [hstated]

theorem foldl_applyProfileDetail (details : List NimStr) (p : MonitorBackendProfile) :
    details.foldl applyProfileDetail p =
      (details.flatMap (splitAt 59)).foldl applyProfilePart p := by
  induction details generalizing p with
  | nil => rfl
  | cons d ds ih =>
      rw [List.foldl_cons, ih, List.flatMap_cons, List.foldl_append]
      rfl

/-- The build's own profile has every input channel and calls itself complete. -/
theorem defaultProfile_good :
    (defaultHooksMonitorProfile InputEvidenceCapabilities).evidenceComplete = true ∧
      coversInputs (defaultHooksMonitorProfile
        InputEvidenceCapabilities).supportedCapabilities = true := by
  decide +kernel

theorem profileComplete_iff_lastWords (records : List MonitorRecord) :
    profileComplete records ↔
      lastWord saysComplete records ≠ some false ∧ lastWord saysSupported records ≠ some false := by
  obtain ⟨hcomplete, hcovers⟩ := defaultProfile_good
  have hword : ∀ o : Option Bool, o.getD true = true ↔ o ≠ some false := by
    rintro (_ | _ | _) <;> simp
  have hdecl : declaredProfile records InputEvidenceCapabilities =
      (profileParts records).foldl applyProfilePart
        (defaultHooksMonitorProfile InputEvidenceCapabilities) := by
    rw [declaredProfile_eq, foldl_applyProfileDetail, profileParts]
  have hfirst := foldl_applyProfilePart (·.evidenceComplete) applyProfilePart_evidenceComplete
    (profileParts records) (defaultHooksMonitorProfile InputEvidenceCapabilities)
  have hsecond := foldl_applyProfilePart (fun p => coversInputs p.supportedCapabilities)
    applyProfilePart_coversInputs (profileParts records)
    (defaultHooksMonitorProfile InputEvidenceCapabilities)
  rw [hcomplete] at hfirst
  rw [hcovers] at hsecond
  rw [profileComplete, evidenceComplete_profileFromRecords, hdecl, Bool.and_eq_true, hfirst,
    ← hword, ← hword]
  exact and_congr_right fun _ => by rw [lastWord, ← hsecond]; rfl

/-- **The verdict is complete** if no record is a loss and neither field has a bad last word. -/
theorem complete_iff_lastWords (records : List MonitorRecord) :
    (depFileFromRecords records).completeness = mcComplete ↔
      (∀ r ∈ records, isLoss r = false) ∧
        lastWord saysComplete records ≠ some false ∧
        lastWord saysSupported records ≠ some false := by
  rw [depFileFromRecords, complete_iff, profileComplete_iff_lastWords]
  exact and_comm

/-! ## 3. One record more -/

theorem profileParts_append (rs ss : List MonitorRecord) :
    profileParts (rs ++ ss) = profileParts rs ++ profileParts ss := by
  rw [profileParts, profileDetails, List.filterMap_append, List.flatMap_append]
  rfl

theorem lastWord_append (word : NimStr → Option Bool) (rs ss : List MonitorRecord) :
    lastWord word (rs ++ ss) = (lastWord word ss).or (lastWord word rs) := by
  rw [lastWord, profileParts_append, List.filterMap_append, List.getLast?_append]
  rfl

theorem lastWord_insert (word : NimStr → Option Bool) (before : List MonitorRecord)
    (r : MonitorRecord) (after : List MonitorRecord) :
    lastWord word (before ++ r :: after) =
      (lastWord word after).or ((lastWord word [r]).or (lastWord word before)) := by
  rw [List.append_cons, lastWord_append, lastWord_append]

/-- Only a backend-profile record says anything. -/
theorem lastWord_singleton {word : NimStr → Option Bool} {r : MonitorRecord}
    (h : lastWord word [r] ≠ none) : r.kind = mrBackendProfile := by
  by_contra hk
  have hdetails : profileDetails [r] = [] := by
    rw [profileDetails, List.filterMap_cons]
    simp [hk]
  exact h (by rw [lastWord, profileParts, hdetails]; rfl)

/-- `r` takes back a bad word: the records before it end on one, those after it are silent, and its
own last word is good. -/
def Overrides (word : NimStr → Option Bool) (before : List MonitorRecord) (r : MonitorRecord)
    (after : List MonitorRecord) : Prop :=
  lastWord word before = some false ∧ lastWord word [r] = some true ∧ lastWord word after = none

/-- Behind `r` the field is not bad. -/
def GoodInTheEnd (word : NimStr → Option Bool) (before : List MonitorRecord) (r : MonitorRecord)
    (after : List MonitorRecord) : Prop :=
  lastWord word (before ++ r :: after) ≠ some false

/-- A field turns from bad to good exactly if the record overrides it. -/
theorem bad_and_good_iff {word : NimStr → Option Bool} {before : List MonitorRecord}
    {r : MonitorRecord} {after : List MonitorRecord} :
    lastWord word (before ++ after) = some false ∧ GoodInTheEnd word before r after ↔
      Overrides word before r after := by
  rw [GoodInTheEnd, lastWord_insert, lastWord_append, Overrides]
  generalize lastWord word before = b
  generalize lastWord word [r] = w
  generalize lastWord word after = a
  rcases a with _ | _ | _ <;> rcases w with _ | _ | _ <;> rcases b with _ | _ | _ <;> simp

/-! ## 4. The verdict -/

/-- **The record raises the verdict.**  It is a backend-profile record, nothing in the list is a
loss, it overrides a bad word on one of the two fields, and in the end both are good. -/
def RaisesVerdict (before : List MonitorRecord) (r : MonitorRecord)
    (after : List MonitorRecord) : Prop :=
  r.kind = mrBackendProfile ∧ (∀ x ∈ before ++ r :: after, isLoss x = false) ∧
    (Overrides saysComplete before r after ∨ Overrides saysSupported before r after) ∧
    GoodInTheEnd saysComplete before r after ∧ GoodInTheEnd saysSupported before r after

theorem mcIncomplete_iff (records : List MonitorRecord) :
    (depFileFromRecords records).completeness = mcIncomplete ↔
      ¬ (depFileFromRecords records).completeness = mcComplete := by
  cases (depFileFromRecords records).completeness with
  | mcComplete => simp
  | mcIncomplete => simp

theorem raisesVerdict_iff (before : List MonitorRecord) (r : MonitorRecord)
    (after : List MonitorRecord) :
    RaisesVerdict before r after ↔
      (depFileFromRecords (before ++ after)).completeness = mcIncomplete ∧
        (depFileFromRecords (before ++ r :: after)).completeness = mcComplete := by
  rw [mcIncomplete_iff, complete_iff_lastWords, complete_iff_lastWords]
  constructor
  · rintro ⟨-, hloss, hover, hgood⟩
    refine ⟨fun h => ?_, hloss, hgood⟩
    rcases hover with hover | hover
    · exact h.2.1 (bad_and_good_iff.mpr hover).1
    · exact h.2.2 (bad_and_good_iff.mpr hover).1
  · rintro ⟨hbad, hloss, hgood⟩
    have hloss' : ∀ x ∈ before ++ after, isLoss x = false := by
      intro x hx
      refine hloss x ?_
      rcases List.mem_append.mp hx with hx | hx
      · exact List.mem_append_left _ hx
      · exact List.mem_append_right _ (List.mem_cons_of_mem _ hx)
    have hover : Overrides saysComplete before r after ∨
        Overrides saysSupported before r after := by
      by_contra hnone
      rw [not_or, ← bad_and_good_iff, ← bad_and_good_iff] at hnone
      exact hbad ⟨hloss', fun h => hnone.1 ⟨h, hgood.1⟩, fun h => hnone.2 ⟨h, hgood.2⟩⟩
    refine ⟨?_, hloss, hover, hgood⟩
    rcases hover with ⟨-, hstated, -⟩ | ⟨-, hstated, -⟩
    · exact lastWord_singleton (by rw [hstated]; exact Option.some_ne_none _)
    · exact lastWord_singleton (by rw [hstated]; exact Option.some_ne_none _)

/-- **Completeness is antitone, but for a profile record that overrides one.** -/
theorem verdict_antitone_iff (before : List MonitorRecord) (r : MonitorRecord)
    (after : List MonitorRecord) :
    ((depFileFromRecords (before ++ after)).completeness = mcIncomplete →
        (depFileFromRecords (before ++ r :: after)).completeness = mcIncomplete) ↔
      ¬ RaisesVerdict before r after := by
  rw [raisesVerdict_iff, mcIncomplete_iff (before ++ r :: after)]
  tauto

/-- A backend-profile record with one part. -/
def profileSaying (detail : NimStr) : MonitorRecord where
  kind := mrBackendProfile
  observationKind := moBackendProfile
  detail := detail

/-- A backend that declared its evidence incomplete, and a second profile record behind it. -/
theorem second_profile_raises :
    (depFileFromRecords [profileSaying (str "evidenceComplete=false")]).completeness =
        mcIncomplete ∧
      (depFileFromRecords [profileSaying (str "evidenceComplete=false"),
        profileSaying (str "evidenceComplete=true")]).completeness = mcComplete := by
  decide +kernel

end IoMon
