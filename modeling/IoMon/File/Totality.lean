/-
# Which failures a reader can end in

The readers document one exception, `MonitorDepFileReaderError`.  Two things escape it.  The body
length of the header is a 64-bit field converted to `int` and added to before it is compared with
anything, so a field of 2^63 or more is a range defect and one close below it an overflow.  And
the iterator calls the record decoder without the handler that the depfile reader wraps around
`decodeFrames`.

  * `decodeMonitorDepFile_total_iff` -- the depfile reader escapes on the length field alone;
  * `streamMonitorDepFileRecords_total_iff` -- the iterator escapes there, and at a frame whose
    payload the record decoder refuses when it gets that far.
-/
import IoMon.File.Reader

namespace IoMon

open ByteText ByteCodec MonitorDepFileReaderErrorKind

/-! ## 1. Reads that only raise the reader's error -/

/-- The read returns, or raises `MonitorDepFileReaderError`. -/
def Total {α : Type} (x : Read α) : Prop := ∀ e, x = .error e → e.isReaderError = true

section Rules

variable {α β : Type}

@[simp] theorem total_ok (a : α) : Total (.ok a : Read α) := by
  intro e h
  exact absurd h (by simp)

@[simp] theorem total_error (e : ReaderFailure) :
    Total (.error e : Read α) ↔ e.isReaderError = true := by
  constructor
  · exact fun h => h e rfl
  · rintro h e' he
    obtain rfl := Except.error.inj he
    exact h

theorem total_bind_iff {x : Read α} {f : α → Read β} :
    Total (x >>= f) ↔ Total x ∧ ∀ a, x = .ok a → Total (f a) := by
  cases x with
  | error e =>
    simp only [total_error, reduceCtorEq, false_implies, implies_true, and_true]
    exact total_error e
  | ok a =>
    simp only [total_ok, true_and, Except.ok.injEq, forall_eq']
    rfl

theorem total_raiseIf {c : Prop} [Decidable c] {kind : MonitorDepFileReaderErrorKind}
    {message : String} : Total (raiseIf c kind message) := by
  unfold raiseIf
  split
  · exact (total_error _).mpr rfl
  · exact total_ok ()

theorem total_toInt_iff {v : Nat} : Total (toInt v) ↔ v < 2 ^ 63 := by
  unfold toInt
  split
  · rename_i h
    exact iff_of_true (total_ok v) h
  · rename_i h
    exact iff_of_false (fun ht => Bool.false_ne_true ((total_error _).mp ht)) h

theorem total_addInt_iff {a b : Nat} : Total (addInt a b) ↔ a + b < 2 ^ 63 := by
  unfold addInt
  split
  · rename_i h
    exact iff_of_true (total_ok _) h
  · rename_i h
    exact iff_of_false (fun ht => Bool.false_ne_true ((total_error _).mp ht)) h

end Rules

/-! ## 2. The header -/

/-- **The body length field is beyond `int`**: it does not convert, or, in a file whose record
count is within the limit, adding the header and the trailer to it overflows.  The checks before
it have passed. -/
def LengthFieldOverflows (options : MonitorDepFileReaderOptions) (bytes : List UInt8) : Prop :=
  44 ≤ bytes.length ∧ bytes.take 4 = IomonMagic ∧ loadLe bytes 4 2 = IomonVersion.toNat ∧
    (2 ^ 63 ≤ loadLe bytes 16 8 ∨
      loadLe bytes 8 8 ≤ options.maxObservationCount.toNat ∧ 2 ^ 63 ≤ 44 + loadLe bytes 16 8)

instance (options : MonitorDepFileReaderOptions) (bytes : List UInt8) :
    Decidable (LengthFieldOverflows options bytes) :=
  inferInstanceAs (Decidable (_ ∧ _ ∧ _ ∧ (_ ∨ _)))

theorem checkEnvelope_total_iff {options : MonitorDepFileReaderOptions} {bytes : List UInt8} :
    Total (checkEnvelope options bytes) ↔ ¬ LengthFieldOverflows options bytes := by
  unfold checkEnvelope LengthFieldOverflows
  simp only [total_bind_iff, total_raiseIf, raiseIf_ok_iff, total_toInt_iff, toInt_ok_iff,
    total_addInt_iff, addInt_ok_iff, true_and, not_lt, not_not, ne_eq, and_imp, pure, Except.pure,
    total_ok, implies_true, and_true, forall_const, not_and, not_or, not_le]
  constructor
  · intro h hlong hmagic hversion
    obtain ⟨hint, hrest⟩ := h hlong hmagic hversion
    refine ⟨hint, fun hlimit => ?_⟩
    obtain ⟨hend, hfile⟩ := hrest _ hint rfl hlimit
    have := hfile _ hend rfl
    omega
  · intro h hlong hmagic hversion
    obtain ⟨hint, hrest⟩ := h hlong hmagic hversion
    refine ⟨hint, ?_⟩
    rintro _ _ rfl hlimit
    have := hrest hlimit
    refine ⟨by omega, ?_⟩
    rintro _ _ rfl
    omega

/-! ## 3. The body -/

theorem validateSequenceOrder_total (expected : UInt64) (rs : List MonitorRecord) :
    Total (validateSequenceOrder expected rs) := by
  induction rs generalizing expected with
  | nil => exact total_ok ()
  | cons r rs ih => exact total_bind_iff.mpr ⟨total_raiseIf, fun _ _ => ih (expected + 1)⟩

/-- Everything the record decoder raises is mapped. -/
theorem mapEnvelopeError_total (x : Except EnvelopeError (List MonitorRecord)) :
    Total (mapEnvelopeError x) := by
  cases x with
  | error e => exact (total_error _).mpr rfl
  | ok rs => exact total_ok rs

theorem decodeBody_total (headerCount : Nat) (body : List UInt8) :
    Total (decodeBody headerCount body) := by
  refine total_bind_iff.mpr ⟨mapEnvelopeError_total _, fun rs _ => ?_⟩
  refine total_bind_iff.mpr ⟨total_raiseIf, fun _ _ => ?_⟩
  exact total_bind_iff.mpr ⟨validateSequenceOrder_total 1 rs, fun _ _ => total_ok _⟩

/-- **The depfile reader** escapes its own error type on the length field alone. -/
theorem decodeMonitorDepFile_total_iff {options : MonitorDepFileReaderOptions}
    {bytes : List UInt8} :
    Total (decodeMonitorDepFile options bytes) ↔ ¬ LengthFieldOverflows options bytes := by
  rw [decodeMonitorDepFile_eq, total_bind_iff, checkEnvelope_total_iff, and_iff_left_iff_imp]
  intro _ fields _
  exact decodeBody_total _ _

/-- A payload among these is refused by the record decoder, and those before it decode to
records numbered on from `n`. -/
def refusesPayload (n : Nat) : List (List UInt8) → Bool
  | [] => false
  | p :: ps =>
    match decodeRecordPayload p with
    | .error _ => true
    | .ok r => r.seq == UInt64.ofNat (n + 1) && refusesPayload (n + 1) ps

theorem streamFrames_total_iff {bytes : List UInt8} {bodyEnd headerCount : Nat}
    (hend : bodyEnd + 4 ≤ bytes.length) (fuel framePos n : Nat) (decoded : UInt64)
    (hfuel : bodyEnd ≤ fuel + framePos) :
    Total (streamFrames bytes bodyEnd headerCount fuel framePos (UInt64.ofNat (n + 1))
        decoded).2 ↔
      refusesPayload n (payloads (remaining bytes bodyEnd framePos)) = false := by
  have hdone : ∀ framePos n, bodyEnd ≤ framePos →
      refusesPayload n (payloads (remaining bytes bodyEnd framePos)) = false := by
    intro framePos n hle
    have hnil : remaining bytes bodyEnd framePos = [] :=
      List.eq_nil_of_length_eq_zero (by rw [remaining_length (by omega)]; omega)
    rw [hnil, payloads_nil, refusesPayload]
  induction fuel generalizing framePos n decoded with
  | zero =>
    rw [streamFrames]
    exact iff_of_true (total_raiseIf) (hdone framePos n (by omega))
  | succ fuel ih =>
    by_cases hpos : framePos < bodyEnd
    · rw [streamFrames_succ hend fuel hpos]
      by_cases hno : NoFrame (remaining bytes bodyEnd framePos)
      · rw [if_pos hno, payloads_of_noFrame hno]
        exact iff_of_true ((total_error _).mpr rfl) rfl
      rw [if_neg hno, payloads_of_frame hno, refusesPayload]
      cases decodeRecordPayload (firstPayload (remaining bytes bodyEnd framePos)) with
      | error e =>
        -- nothing maps this one
        exact iff_of_false (fun ht => Bool.false_ne_true ((total_error _).mp ht)) (by simp)
      | ok r =>
        dsimp only
        by_cases hseq : r.seq = UInt64.ofNat (n + 1)
        · rw [if_neg (not_not.mpr hseq), ofNat_succ_add_one, ← afterFrame_remaining, hseq,
            beq_self_eq_true, Bool.true_and]
          exact ih _ (n + 1) _ (by omega)
        · rw [if_pos hseq, beq_false_of_ne hseq, Bool.false_and]
          exact iff_of_true ((total_error _).mpr rfl) rfl
    · rw [streamFrames, if_neg hpos]
      exact iff_of_true (total_raiseIf) (hdone framePos n (by omega))

/-- **The iterator** also escapes at a frame the record decoder refuses. -/
theorem streamMonitorDepFileRecords_total_iff {options : MonitorDepFileReaderOptions}
    {bytes : List UInt8} :
    Total (streamMonitorDepFileRecords options bytes).2 ↔
      ¬ LengthFieldOverflows options bytes ∧
        ∀ headerCount bodyLen, EnvelopeOk options bytes headerCount bodyLen →
          refusesPayload 0 (payloads (bodyOf bytes bodyLen)) = false := by
  rw [streamMonitorDepFileRecords_eq, ← checkEnvelope_total_iff]
  cases hcheck : checkEnvelope options bytes with
  | error e =>
    dsimp only
    rw [total_error, total_error]
    refine (and_iff_left ?_).symm
    intro c l henv
    rw [checkEnvelope_ok_iff.mpr henv] at hcheck
    exact absurd hcheck (by simp)
  | ok fields =>
    obtain ⟨c, l⟩ := fields
    have henv := checkEnvelope_ok_iff.mp hcheck
    have hlen := henv.length
    have hframes :=
      @streamFrames_total_iff bytes (24 + l) c (by omega) bytes.length 24 0 0 (by omega)
    rw [remaining_bodyOf, Nat.zero_add] at hframes
    refine hframes.trans ?_
    simp only [total_ok, true_and]
    constructor
    · intro hno c' l' henv'
      obtain rfl : l' = l := henv'.lengthField.symm.trans henv.lengthField
      exact hno
    · intro hno
      exact hno c l henv

/-! ## 4. The two together -/

/-- **Reader error totality, exactly.**  Both readers return or raise the reader's own error if
and only if the length field stays within `int` and no frame the iterator reaches holds a payload
that the record decoder refuses. -/
theorem reader_errors_total_iff (options : MonitorDepFileReaderOptions) (bytes : List UInt8) :
    (Total (decodeMonitorDepFile options bytes) ∧
        Total (streamMonitorDepFileRecords options bytes).2) ↔
      ¬ LengthFieldOverflows options bytes ∧
        ∀ headerCount bodyLen, EnvelopeOk options bytes headerCount bodyLen →
          refusesPayload 0 (payloads (bodyOf bytes bodyLen)) = false := by
  rw [decodeMonitorDepFile_total_iff, streamMonitorDepFileRecords_total_iff, ← and_assoc, and_self]

/-- A file with no records whose body length field is 2^63. -/
def hugeLengthFile : List UInt8 := fileHeader 0 (2 ^ 63) ++ fileTrailer 0 (checksum [])

/-- A file with one frame, whose payload is a single byte. -/
def shortPayloadFile : List UInt8 :=
  fileHeader 1 5 ++ (frame [0] ++ fileTrailer 1 (checksum (frame [0])))

/-- **Neither reader is total.**  The first file ends both in a range defect; the second is a
reader error for the one and an unmapped decoder error for the other. -/
theorem readers_escape :
    ¬ Total (decodeMonitorDepFile defaultMonitorDepFileReaderOptions hugeLengthFile) ∧
      ¬ Total (streamMonitorDepFileRecords defaultMonitorDepFileReaderOptions hugeLengthFile).2 ∧
      Total (decodeMonitorDepFile defaultMonitorDepFileReaderOptions shortPayloadFile) ∧
      ¬ Total (streamMonitorDepFileRecords defaultMonitorDepFileReaderOptions
        shortPayloadFile).2 := by
  have hdecode : decodeMonitorDepFile defaultMonitorDepFileReaderOptions hugeLengthFile =
      .error .rangeDefect := by decide +kernel
  have hstream : (streamMonitorDepFileRecords defaultMonitorDepFileReaderOptions
      hugeLengthFile).2 = .error .rangeDefect := by decide +kernel
  have hmapped : decodeMonitorDepFile defaultMonitorDepFileReaderOptions shortPayloadFile =
      .error (.readerError mrTruncated (str "truncated iomon record header")) := by decide +kernel
  have hescapes : (streamMonitorDepFileRecords defaultMonitorDepFileReaderOptions
      shortPayloadFile).2 =
        .error (.envelopeError ⟨.eeMalformed, str "truncated iomon record header"⟩) := by
    decide +kernel
  rw [hdecode, hstream, hmapped, hescapes]
  simp only [total_error, ReaderFailure.isReaderError, Bool.false_eq_true, not_false_eq_true,
    and_self]

end IoMon
