/-
# The two readers of a canonical file

`reader.nim` has a reader that returns the whole depfile and an iterator that hands out one record
at a time.  Each makes its own header checks, in the same order, and walks the frames in its own
way: the first decodes the body with `decodeFrames` and maps its errors, the second reads the
lengths out of the whole file and calls the record decoder itself.

A read can end in the reader's own error, in an error of the inner decoder that nobody mapped, or
in a Nim defect from a checked conversion, addition or slice (`ReaderFailure`).

  * `checkEnvelope_eq` -- the header checks as one list of conditions on the bytes; every slice
    and every read they make is in bounds;
  * `decodeMonitorDepFile_ok_iff`, `streamMonitorDepFileRecords_ok_iff` -- what each reader
    accepts;
  * `stream_agrees` -- they accept the same files and return the same records;
  * `reader_errors_total_iff` -- when they fail with nothing but the reader's own error.
-/
import IoMon.File.Canonical

namespace IoMon

open ByteText ByteCodec

/-! ## 1. Failures -/

inductive MonitorDepFileReaderErrorKind
  | mrMissingFile | mrBadMagic | mrUnsupportedVersion | mrMissingRequiredFeature | mrTruncated
  | mrChecksumMismatch | mrRecordOrderInvalid | mrRecordLimitExceeded
  | mrSemanticValidationFailed
  deriving DecidableEq, Repr

open MonitorDepFileReaderErrorKind

/-- How a read can end other than normally. -/
inductive ReaderFailure
  | readerError (kind : MonitorDepFileReaderErrorKind) (message : NimStr)
  | envelopeError (error : EnvelopeError)
  | rangeDefect | overflowDefect | indexDefect
  deriving DecidableEq, Repr

/-- `MonitorDepFileReaderError`, the only exception the readers document. -/
def ReaderFailure.isReaderError : ReaderFailure → Bool
  | .readerError .. => true
  | _ => false

/-- The options the readers look at. -/
structure MonitorDepFileReaderOptions where
  requireTrailerChecksum : Bool
  maxObservationCount : UInt64
  deriving DecidableEq, Repr

def defaultMonitorDepFileReaderOptions : MonitorDepFileReaderOptions where
  requireTrailerChecksum := true
  maxObservationCount := 1000 * 1000 * 1000

abbrev Read := Except ReaderFailure

/-- `if c: raiseMonitorDepFileReaderError(kind, message)`. -/
def raiseIf (c : Prop) [Decidable c] (kind : MonitorDepFileReaderErrorKind) (message : String) :
    Read Unit :=
  if c then .error (.readerError kind (str message)) else .ok ()

/-! ## 2. Checked operations -/

/-- `int(value)` of an unsigned 64-bit value. -/
def toInt (value : Nat) : Read Nat :=
  if value < 2 ^ 63 then .ok value else .error .rangeDefect

/-- Addition of two non-negative `int`s. -/
def addInt (a b : Nat) : Read Nat :=
  if a + b < 2 ^ 63 then .ok (a + b) else .error .overflowDefect

/-- `bytes.toOpenArray(first, stop - 1)`. -/
def toOpenArray (bytes : List UInt8) (first stop : Nat) : Read (List UInt8) :=
  if first ≤ stop ∧ stop ≤ bytes.length then .ok ((bytes.take stop).drop first)
  else .error .indexDefect

/-- A cursor read that raises the envelope error of its width when the buffer is too short. -/
def readLe (width : Nat) (message : String) (bytes : List UInt8) (pos : Nat) : Read (Nat × Nat) :=
  if pos + width > bytes.length then .error (.envelopeError ⟨.eeMalformed, str message⟩)
  else .ok (loadLe bytes pos width, pos + width)

def readU16 := readLe 2 "truncated uint16"

def readU32 := readLe 4 "truncated uint32"

def readU64 := readLe 8 "truncated uint64"

/-! ## 3. The reader that returns the depfile -/

/-- `err.msg.contains(sub)`. -/
def containsStr (sub s : NimStr) : Bool := s.tails.any fun t => sub.isPrefixOf t

def classifyEnvelopeError (err : EnvelopeError) : MonitorDepFileReaderErrorKind :=
  match err.kind with
  | .eeUnknownMagic => mrBadMagic
  | .eeUnsupportedVersion => mrUnsupportedVersion
  | .eeUnknownType => mrSemanticValidationFailed
  | .eeMalformed =>
    if containsStr (str "truncated") err.message then mrTruncated
    else if containsStr (str "checksum") err.message then mrChecksumMismatch
    else mrSemanticValidationFailed

/-- `decodeFrames` from `pos` on, with a bound on the number of frames; every frame takes at
least four bytes, so the length of the buffer is bound enough. -/
def decodeFramesFrom (bytes : List UInt8) : Nat → Nat → Except EnvelopeError (List MonitorRecord)
  | 0, _ => .ok []
  | fuel + 1, pos =>
    if pos < bytes.length then
      match readU32Le bytes pos with
      | .error e => .error e
      | .ok (length, pos) =>
        if length ≤ 0 ∨ pos + length > bytes.length then
          raiseEnvelopeError .eeMalformed "truncated iomon record frame"
        else
          match decodeRecordPayload ((bytes.drop pos).take length) with
          | .error e => .error e
          | .ok r =>
            match decodeFramesFrom bytes fuel (pos + length) with
            | .error e => .error e
            | .ok rs => .ok (r :: rs)
    else .ok []

def decodeFrames (bytes : List UInt8) : Except EnvelopeError (List MonitorRecord) :=
  decodeFramesFrom bytes bytes.length 0

def validateSequenceOrder (expected : UInt64) : List MonitorRecord → Read Unit
  | [] => .ok ()
  | r :: rs => do
    raiseIf (r.seq ≠ expected) mrRecordOrderInvalid "iomon record sequence is not canonical"
    validateSequenceOrder (expected + 1) rs

/-- `except EnvelopeError as err`. -/
def mapEnvelopeError : Except EnvelopeError (List MonitorRecord) → Read (List MonitorRecord)
  | .error e => .error (.readerError (classifyEnvelopeError e) e.message)
  | .ok rs => .ok rs

/-- **The reader that returns the depfile.** -/
def decodeMonitorDepFile (options : MonitorDepFileReaderOptions) (bytes : List UInt8) :
    Read MonitorDepFile := do
  raiseIf (bytes.length < 44) mrTruncated "iomon file is too short"
  let magic ← toOpenArray bytes 0 4
  raiseIf (magic ≠ IomonMagic) mrBadMagic "unknown iomon magic"
  let (version, pos) ← readU16 bytes 4
  raiseIf (version ≠ IomonVersion.toNat) mrUnsupportedVersion "unsupported iomon version"
  let (_, pos) ← readU16 bytes pos
  let (headerCount, pos) ← readU64 bytes pos
  let (bodyLenField, pos) ← readU64 bytes pos
  let bodyLen ← toInt bodyLenField
  raiseIf (headerCount > options.maxObservationCount.toNat) mrRecordLimitExceeded
    "iomon record count exceeds configured limit"
  let bodyStart := pos
  let bodyEnd ← addInt bodyStart bodyLen
  let expectedLen ← addInt bodyEnd 20
  raiseIf (expectedLen ≠ bytes.length) mrTruncated "iomon body length/trailer mismatch"
  let trailerMagic ← toOpenArray bytes bodyEnd (bodyEnd + 4)
  raiseIf (trailerMagic ≠ IomonTrailerMagic) mrTruncated "missing iomon trailer"
  let (trailerCount, pos) ← readU64 bytes (bodyEnd + 4)
  let (trailerChecksum, _) ← readU64 bytes pos
  raiseIf (trailerCount ≠ headerCount) mrSemanticValidationFailed "iomon record count mismatch"
  let body ← toOpenArray bytes bodyStart bodyEnd
  raiseIf (options.requireTrailerChecksum = true ∧ trailerChecksum ≠ (checksum body).toNat)
    mrChecksumMismatch "iomon checksum mismatch"
  let records ← mapEnvelopeError (decodeFrames body)
  raiseIf (records.length % 2 ^ 64 ≠ headerCount) mrSemanticValidationFailed
    "iomon frame count mismatch"
  validateSequenceOrder 1 records
  return { depFileFromOwnedRecords records with version := UInt16.ofNat version }

/-- `readMonitorDepFile`: `none` is a path at which there is no file. -/
def readMonitorDepFile (options : MonitorDepFileReaderOptions) (path : NimStr)
    (file : Option (List UInt8)) : Read MonitorDepFile :=
  match file with
  | none => .error (.readerError mrMissingFile (str "iomon file does not exist: " ++ path))
  | some bytes => decodeMonitorDepFile options bytes

/-! ## 4. The reader that hands out records -/

/-- The iterator's own header checks: where the frames begin and end, and how many there are. -/
def streamEnvelope (options : MonitorDepFileReaderOptions) (bytes : List UInt8) :
    Read (Nat × Nat × Nat) := do
  raiseIf (bytes.length < 44) mrTruncated "iomon file is too short"
  let magic ← toOpenArray bytes 0 4
  raiseIf (magic ≠ IomonMagic) mrBadMagic "unknown iomon magic"
  let (version, pos) ← readU16 bytes 4
  raiseIf (version ≠ IomonVersion.toNat) mrUnsupportedVersion "unsupported iomon version"
  let (_, pos) ← readU16 bytes pos
  let (headerCount, pos) ← readU64 bytes pos
  let (bodyLenField, pos) ← readU64 bytes pos
  let bodyLen ← toInt bodyLenField
  raiseIf (headerCount > options.maxObservationCount.toNat) mrRecordLimitExceeded
    "iomon record count exceeds configured limit"
  let bodyStart := pos
  let bodyEnd ← addInt bodyStart bodyLen
  let expectedLen ← addInt bodyEnd 20
  raiseIf (expectedLen ≠ bytes.length) mrTruncated "iomon body length/trailer mismatch"
  let trailerMagic ← toOpenArray bytes bodyEnd (bodyEnd + 4)
  raiseIf (trailerMagic ≠ IomonTrailerMagic) mrTruncated "missing iomon trailer"
  let (trailerCount, tpos) ← readU64 bytes (bodyEnd + 4)
  let (trailerChecksum, _) ← readU64 bytes tpos
  raiseIf (trailerCount ≠ headerCount) mrSemanticValidationFailed "iomon record count mismatch"
  let body ← toOpenArray bytes bodyStart bodyEnd
  raiseIf (options.requireTrailerChecksum = true ∧ trailerChecksum ≠ (checksum body).toNat)
    mrChecksumMismatch "iomon checksum mismatch"
  return (bodyStart, bodyEnd, headerCount)

/-- The record decoder as the iterator calls it: nothing maps its error. -/
def callDecodeRecordPayload (payload : List UInt8) : Read MonitorRecord :=
  match decodeRecordPayload payload with
  | .error e => .error (.envelopeError e)
  | .ok r => .ok r

/-- One turn of the iterator's loop: the record, and where the next frame begins. -/
def nextRecord (bytes : List UInt8) (bodyEnd framePos : Nat) (expectedSeq : UInt64) :
    Read (MonitorRecord × Nat) := do
  let (length, payloadPos) ← readU32 bytes framePos
  raiseIf (length ≤ 0 ∨ payloadPos + length > bodyEnd) mrTruncated "truncated iomon record frame"
  let payload ← toOpenArray bytes payloadPos (payloadPos + length)
  let record ← callDecodeRecordPayload payload
  raiseIf (record.seq ≠ expectedSeq) mrRecordOrderInvalid "iomon record sequence is not canonical"
  return (record, payloadPos + length)

/-- The iterator's loop: the records it yields and how it ends.  The bound is the number of bytes
left, as for `decodeFrames`. -/
def streamFrames (bytes : List UInt8) (bodyEnd headerCount : Nat) :
    Nat → (framePos : Nat) → (expectedSeq decoded : UInt64) → List MonitorRecord × Read Unit
  | 0, _, _, decoded => ([], raiseIf (decoded.toNat ≠ headerCount) mrSemanticValidationFailed
      "iomon frame count mismatch")
  | fuel + 1, framePos, expectedSeq, decoded =>
    if framePos < bodyEnd then
      match nextRecord bytes bodyEnd framePos expectedSeq with
      | .error e => ([], .error e)
      | .ok (record, framePos) =>
        let rest := streamFrames bytes bodyEnd headerCount fuel framePos (expectedSeq + 1)
          (decoded + 1)
        (record :: rest.1, rest.2)
    else ([], raiseIf (decoded.toNat ≠ headerCount) mrSemanticValidationFailed
      "iomon frame count mismatch")

/-- **The iterator**, run to its end: what it yielded, and whether it raised. -/
def streamMonitorDepFileRecords (options : MonitorDepFileReaderOptions) (bytes : List UInt8) :
    List MonitorRecord × Read Unit :=
  match streamEnvelope options bytes with
  | .error e => ([], .error e)
  | .ok (bodyStart, bodyEnd, headerCount) =>
    streamFrames bytes bodyEnd headerCount bytes.length bodyStart 1 0

/-! ## 5. The header checks

Once the file has 44 bytes, every fixed field is inside it, and once the length field agrees with
the file length so is everything behind the body: no slice is out of bounds and no cursor read
raises. -/

theorem bind_congr_ok {ε α β : Type} {x : Except ε α} {f g : α → Except ε β}
    (h : ∀ a, x = .ok a → f a = g a) : x >>= f = x >>= g := by
  cases x with
  | error e => rfl
  | ok a => exact h a rfl

theorem raiseIf_ok_iff {c : Prop} [Decidable c] {kind : MonitorDepFileReaderErrorKind}
    {message : String} {u : Unit} : raiseIf c kind message = .ok u ↔ ¬ c := by
  by_cases hc : c <;> simp [raiseIf, hc]

theorem raiseIf_of {c : Prop} [Decidable c] (hc : c) (kind : MonitorDepFileReaderErrorKind)
    (message : String) : raiseIf c kind message = .error (.readerError kind (str message)) :=
  if_pos hc

theorem raiseIf_of_not {c : Prop} [Decidable c] (hc : ¬ c) (kind : MonitorDepFileReaderErrorKind)
    (message : String) : raiseIf c kind message = .ok () := if_neg hc

theorem toOpenArray_ok {bytes : List UInt8} {first stop : Nat} (h : first ≤ stop)
    (hstop : stop ≤ bytes.length) :
    toOpenArray bytes first stop = .ok ((bytes.take stop).drop first) := if_pos ⟨h, hstop⟩

theorem readLe_ok {width : Nat} {message : String} {bytes : List UInt8} {pos : Nat}
    (h : pos + width ≤ bytes.length) :
    readLe width message bytes pos = .ok (loadLe bytes pos width, pos + width) :=
  if_neg (Nat.not_lt.mpr h)

theorem addInt_ok_iff {a b n : Nat} : addInt a b = .ok n ↔ a + b < 2 ^ 63 ∧ n = a + b := by
  unfold addInt
  split
  · rename_i h
    simp only [Except.ok.injEq, h, true_and]
    exact eq_comm
  · rename_i h
    simp only [h, false_and, reduceCtorEq]

theorem toInt_ok_iff {v n : Nat} : toInt v = .ok n ↔ v < 2 ^ 63 ∧ n = v := by
  unfold toInt
  split
  · rename_i h
    simp only [Except.ok.injEq, h, true_and]
    exact eq_comm
  · rename_i h
    simp only [h, false_and, reduceCtorEq]

/-- The body of a file whose length field is `bodyLen`. -/
def bodyOf (bytes : List UInt8) (bodyLen : Nat) : List UInt8 := (bytes.drop 24).take bodyLen

/-- **The header checks on the bytes alone**: the record count and the body length. -/
def checkEnvelope (options : MonitorDepFileReaderOptions) (bytes : List UInt8) :
    Read (Nat × Nat) := do
  raiseIf (bytes.length < 44) mrTruncated "iomon file is too short"
  raiseIf (bytes.take 4 ≠ IomonMagic) mrBadMagic "unknown iomon magic"
  raiseIf (loadLe bytes 4 2 ≠ IomonVersion.toNat) mrUnsupportedVersion "unsupported iomon version"
  let bodyLen ← toInt (loadLe bytes 16 8)
  raiseIf (loadLe bytes 8 8 > options.maxObservationCount.toNat) mrRecordLimitExceeded
    "iomon record count exceeds configured limit"
  let bodyEnd ← addInt 24 bodyLen
  let expectedLen ← addInt bodyEnd 20
  raiseIf (expectedLen ≠ bytes.length) mrTruncated "iomon body length/trailer mismatch"
  raiseIf ((bytes.drop bodyEnd).take 4 ≠ IomonTrailerMagic) mrTruncated "missing iomon trailer"
  raiseIf (loadLe bytes (bodyEnd + 4) 8 ≠ loadLe bytes 8 8) mrSemanticValidationFailed
    "iomon record count mismatch"
  raiseIf (options.requireTrailerChecksum = true ∧
    loadLe bytes (bodyEnd + 12) 8 ≠ (checksum (bodyOf bytes bodyLen)).toNat)
    mrChecksumMismatch "iomon checksum mismatch"
  return (loadLe bytes 8 8, bodyLen)

theorem take_drop_slice (bytes : List UInt8) (first n : Nat) :
    (bytes.take (first + n)).drop first = (bytes.drop first).take n := by
  rw [List.drop_take, Nat.add_sub_cancel_left]

/-- The checks both readers begin with, and what they go on with: the version, the bounds of the
body, the record count and the body itself. -/
def withEnvelope {β : Type} (options : MonitorDepFileReaderOptions) (bytes : List UInt8)
    (rest : (version bodyStart bodyEnd headerCount : Nat) → (body : List UInt8) → Read β) :
    Read β := do
  raiseIf (bytes.length < 44) mrTruncated "iomon file is too short"
  let magic ← toOpenArray bytes 0 4
  raiseIf (magic ≠ IomonMagic) mrBadMagic "unknown iomon magic"
  let (version, pos) ← readU16 bytes 4
  raiseIf (version ≠ IomonVersion.toNat) mrUnsupportedVersion "unsupported iomon version"
  let (_, pos) ← readU16 bytes pos
  let (headerCount, pos) ← readU64 bytes pos
  let (bodyLenField, bodyStart) ← readU64 bytes pos
  let bodyLen ← toInt bodyLenField
  raiseIf (headerCount > options.maxObservationCount.toNat) mrRecordLimitExceeded
    "iomon record count exceeds configured limit"
  let bodyEnd ← addInt bodyStart bodyLen
  let expectedLen ← addInt bodyEnd 20
  raiseIf (expectedLen ≠ bytes.length) mrTruncated "iomon body length/trailer mismatch"
  let trailerMagic ← toOpenArray bytes bodyEnd (bodyEnd + 4)
  raiseIf (trailerMagic ≠ IomonTrailerMagic) mrTruncated "missing iomon trailer"
  let (trailerCount, pos) ← readU64 bytes (bodyEnd + 4)
  let (trailerChecksum, _) ← readU64 bytes pos
  raiseIf (trailerCount ≠ headerCount) mrSemanticValidationFailed "iomon record count mismatch"
  let body ← toOpenArray bytes bodyStart bodyEnd
  raiseIf (options.requireTrailerChecksum = true ∧ trailerChecksum ≠ (checksum body).toNat)
    mrChecksumMismatch "iomon checksum mismatch"
  rest version bodyStart bodyEnd headerCount body

theorem ok_bind {ε α β : Type} (a : α) (f : α → Except ε β) : (Except.ok a >>= f) = f a := rfl

/-- **The header checks**: every read and slice they make succeeds, and what is left of them is
`checkEnvelope`. -/
theorem withEnvelope_eq {β : Type} (options : MonitorDepFileReaderOptions) (bytes : List UInt8)
    (rest : (version bodyStart bodyEnd headerCount : Nat) → (body : List UInt8) → Read β) :
    withEnvelope options bytes rest = (do
      let (headerCount, bodyLen) ← checkEnvelope options bytes
      rest IomonVersion.toNat 24 (24 + bodyLen) headerCount (bodyOf bytes bodyLen)) := by
  unfold withEnvelope checkEnvelope readU16 readU64
  simp only [bind_assoc]
  refine bind_congr_ok fun _ hlen => ?_
  rw [raiseIf_ok_iff, Nat.not_lt] at hlen
  rw [toOpenArray_ok (Nat.zero_le _) (by omega), List.drop_zero, ok_bind]
  refine bind_congr_ok fun _ _ => ?_
  rw [readLe_ok (by omega), ok_bind]
  refine bind_congr_ok fun _ hversion => ?_
  rw [raiseIf_ok_iff, not_not] at hversion
  rw [readLe_ok (by omega), ok_bind, readLe_ok (by omega), ok_bind, readLe_ok (by omega), ok_bind]
  refine bind_congr_ok fun bodyLen _ => bind_congr_ok fun _ _ => bind_congr_ok fun bodyEnd hend =>
    bind_congr_ok fun expectedLen hexp => bind_congr_ok fun _ hfile => ?_
  -- the length field agrees with the file: the trailer is inside it
  obtain ⟨_, rfl⟩ := addInt_ok_iff.mp hend
  obtain ⟨_, rfl⟩ := addInt_ok_iff.mp hexp
  rw [raiseIf_ok_iff, not_not] at hfile
  rw [toOpenArray_ok (Nat.le_add_right _ _) (by omega), ok_bind, take_drop_slice]
  refine bind_congr_ok fun _ _ => ?_
  rw [readLe_ok (by omega), ok_bind, readLe_ok (by omega), ok_bind]
  refine bind_congr_ok fun _ _ => ?_
  rw [toOpenArray_ok (Nat.le_add_right _ _) (by omega), ok_bind, take_drop_slice]
  refine bind_congr_ok fun _ _ => ?_
  rw [hversion]
  rfl

/-- What the depfile reader does with the body. -/
def decodeBody (headerCount : Nat) (body : List UInt8) : Read MonitorDepFile := do
  let records ← mapEnvelopeError (decodeFrames body)
  raiseIf (records.length % 2 ^ 64 ≠ headerCount) mrSemanticValidationFailed
    "iomon frame count mismatch"
  validateSequenceOrder 1 records
  return depFileFromOwnedRecords records

theorem depFile_version (records : List MonitorRecord) :
    { depFileFromOwnedRecords records with version := UInt16.ofNat IomonVersion.toNat } =
      depFileFromOwnedRecords records := by
  rw [UInt16.ofNat_toNat]
  rfl

theorem decodeMonitorDepFile_eq (options : MonitorDepFileReaderOptions) (bytes : List UInt8) :
    decodeMonitorDepFile options bytes = (do
      let (headerCount, bodyLen) ← checkEnvelope options bytes
      decodeBody headerCount (bodyOf bytes bodyLen)) := by
  have hchecks := withEnvelope_eq options bytes fun version _ _ headerCount body => do
    let records ← mapEnvelopeError (decodeFrames body)
    raiseIf (records.length % 2 ^ 64 ≠ headerCount) mrSemanticValidationFailed
      "iomon frame count mismatch"
    validateSequenceOrder 1 records
    return { depFileFromOwnedRecords records with version := UInt16.ofNat version }
  simp only [depFile_version] at hchecks
  exact hchecks

theorem streamEnvelope_eq (options : MonitorDepFileReaderOptions) (bytes : List UInt8) :
    streamEnvelope options bytes = (do
      let (headerCount, bodyLen) ← checkEnvelope options bytes
      return (24, 24 + bodyLen, headerCount)) :=
  withEnvelope_eq options bytes fun _ bodyStart bodyEnd headerCount _ =>
    return (bodyStart, bodyEnd, headerCount)

/-- **What passes the header checks.** -/
structure EnvelopeOk (options : MonitorDepFileReaderOptions) (bytes : List UInt8)
    (headerCount bodyLen : Nat) : Prop where
  long : 44 ≤ bytes.length
  magic : bytes.take 4 = IomonMagic
  version : loadLe bytes 4 2 = IomonVersion.toNat
  count : loadLe bytes 8 8 = headerCount
  lengthField : loadLe bytes 16 8 = bodyLen
  limit : headerCount ≤ options.maxObservationCount.toNat
  fits : 44 + bodyLen < 2 ^ 63
  length : bytes.length = 44 + bodyLen
  trailerMagic : (bytes.drop (24 + bodyLen)).take 4 = IomonTrailerMagic
  trailerCount : loadLe bytes (28 + bodyLen) 8 = headerCount
  trailerChecksum : options.requireTrailerChecksum = true →
    loadLe bytes (36 + bodyLen) 8 = (checksum (bodyOf bytes bodyLen)).toNat

theorem bind_eq_ok_iff {ε α β : Type} {x : Except ε α} {f : α → Except ε β} {b : β} :
    x >>= f = .ok b ↔ ∃ a, x = .ok a ∧ f a = .ok b := by
  cases x with
  | error e => simp [Bind.bind, Except.bind]
  | ok a => simp [Bind.bind, Except.bind]

theorem checkEnvelope_ok_iff {options : MonitorDepFileReaderOptions} {bytes : List UInt8}
    {headerCount bodyLen : Nat} :
    checkEnvelope options bytes = .ok (headerCount, bodyLen) ↔
      EnvelopeOk options bytes headerCount bodyLen := by
  unfold checkEnvelope
  simp only [bind_eq_ok_iff, raiseIf_ok_iff, toInt_ok_iff, addInt_ok_iff, exists_and_left,
    exists_const, not_not, not_lt, ne_eq, not_and, pure, Except.pure, Except.ok.injEq,
    Prod.mk.injEq]
  constructor
  · rintro ⟨hlong, hmagic, hversion, n, ⟨hn, rfl⟩, hlimit, e, ⟨he, rfl⟩, x, ⟨hx, rfl⟩, hlen,
      htrailer, hcount, hsum, rfl, rfl⟩
    refine ⟨hlong, hmagic, hversion, rfl, rfl, hlimit, by omega, by omega, htrailer, ?_, ?_⟩
    · rw [← hcount]
      congr 1
      omega
    · intro hreq
      rw [← hsum hreq]
      congr 1
      omega
  · intro h
    obtain ⟨hlong, hmagic, hversion, hcount, hbody, hlimit, hfits, hlen, htrailer, htcount,
      hsum⟩ := h
    subst hcount hbody
    refine ⟨hlong, hmagic, hversion, _, ⟨by omega, rfl⟩, hlimit, _, ⟨by omega, rfl⟩, _,
      ⟨by omega, rfl⟩, by omega, htrailer, ?_, ?_, rfl, rfl⟩
    · rw [← htcount]
      congr 1
      omega
    · intro hreq
      rw [← hsum hreq]
      congr 1
      omega

/-! ## 6. The frames -/

/-- Reading all frames is reading them tolerantly without damage. -/
theorem decodeFramesFrom_ok_iff (bytes : List UInt8) (fuel pos : Nat)
    (hfuel : bytes.length ≤ fuel + pos) (rs : List MonitorRecord) :
    decodeFramesFrom bytes fuel pos = .ok rs ↔
      scan decodeRecordPayload (bytes.drop pos) = (rs, true) := by
  induction fuel generalizing pos rs with
  | zero =>
    have hnil : bytes.drop pos = [] := List.drop_eq_nil_of_le (by omega)
    rw [hnil, scan_nil, decodeFramesFrom]
    simp [eq_comm]
  | succ fuel ih =>
    rw [decodeFramesFrom]
    by_cases hpos : pos < bytes.length
    · have hne : bytes.drop pos ≠ [] := by
        intro h
        have := congrArg List.length h
        rw [List.length_drop, List.length_nil] at this
        omega
      have hload : loadLe (bytes.drop pos) 0 4 = loadLe bytes pos 4 := by
        rw [loadLe, loadLe, List.drop_zero]
      rw [if_pos hpos, scan_eq _ _ hne, hload, readU32Le, List.length_drop]
      by_cases h4 : pos + 4 > bytes.length
      · rw [if_pos h4, if_pos (by omega)]
        simp [raiseEnvelopeError]
      rw [if_neg h4, if_neg (by omega)]
      dsimp only
      by_cases hbad : loadLe bytes pos 4 ≤ 0 ∨ pos + 4 + loadLe bytes pos 4 > bytes.length
      · rw [if_pos hbad, if_pos (by omega)]
        simp [raiseEnvelopeError]
      rw [if_neg hbad, if_neg (by omega), List.drop_drop, List.drop_drop]
      cases hdec : decodeRecordPayload ((bytes.drop (pos + 4)).take (loadLe bytes pos 4)) with
      | error e => simp
      | ok r =>
        have ih := ih (pos + 4 + loadLe bytes pos 4) (by omega)
        rw [← Nat.add_assoc]
        dsimp only
        cases hrest : decodeFramesFrom bytes fuel (pos + 4 + loadLe bytes pos 4) with
        | error e =>
          rw [hrest] at ih
          simp only [reduceCtorEq, false_iff, Prod.mk.injEq] at ih ⊢
          rintro ⟨_, hclean⟩
          exact ih _ (Prod.ext rfl hclean)
        | ok rest =>
          have hscan := (ih rest).mp hrest
          simp only [hscan, Except.ok.injEq, Prod.mk.injEq, and_true]
    · rw [if_neg hpos, List.drop_eq_nil_of_le (by omega), scan_nil]
      simp [eq_comm]

theorem decodeFrames_ok_iff {body : List UInt8} {rs : List MonitorRecord} :
    decodeFrames body = .ok rs ↔ scan decodeRecordPayload body = (rs, true) :=
  decodeFramesFrom_ok_iff body body.length 0 (Nat.le_refl _) rs

theorem validateSequenceOrder_ok_iff {n : Nat} {rs : List MonitorRecord} {u : Unit} :
    validateSequenceOrder (UInt64.ofNat (n + 1)) rs = .ok u ↔ NumberedFrom n rs := by
  induction rs generalizing n with
  | nil => simp [validateSequenceOrder, NumberedFrom]
  | cons r rs ih =>
    have hnext : UInt64.ofNat (n + 1) + 1 = UInt64.ofNat (n + 1 + 1) := by
      rw [UInt64.ofNat_add (n + 1) 1]
      rfl
    rw [validateSequenceOrder, bind_eq_ok_iff, numberedFrom_cons, hnext]
    simp only [raiseIf_ok_iff, ne_eq, not_not, exists_and_left, exists_const, ih]

theorem decodeBody_ok_iff {headerCount : Nat} {body : List UInt8} {d : MonitorDepFile} :
    decodeBody headerCount body = .ok d ↔ ∃ rs, scan decodeRecordPayload body = (rs, true) ∧
      rs.length % 2 ^ 64 = headerCount ∧ NumberedFrom 0 rs ∧ d = depFileFromOwnedRecords rs := by
  have hmap : ∀ rs, mapEnvelopeError (decodeFrames body) = .ok rs ↔
      scan decodeRecordPayload body = (rs, true) := by
    intro rs
    rw [← decodeFrames_ok_iff]
    cases decodeFrames body <;> simp [mapEnvelopeError]
  have horder : ∀ rs u, validateSequenceOrder 1 rs = .ok u ↔ NumberedFrom 0 rs := fun rs u =>
    validateSequenceOrder_ok_iff
  unfold decodeBody
  simp only [bind_eq_ok_iff, hmap, raiseIf_ok_iff, horder, ne_eq, not_not, exists_and_left,
    exists_const, pure, Except.pure, Except.ok.injEq, eq_comm (a := d)]

/-- **What the depfile reader accepts.** -/
theorem decodeMonitorDepFile_ok_iff {options : MonitorDepFileReaderOptions} {bytes : List UInt8}
    {d : MonitorDepFile} :
    decodeMonitorDepFile options bytes = .ok d ↔
      ∃ headerCount bodyLen rs, EnvelopeOk options bytes headerCount bodyLen ∧
        scan decodeRecordPayload (bodyOf bytes bodyLen) = (rs, true) ∧
        rs.length % 2 ^ 64 = headerCount ∧ NumberedFrom 0 rs ∧
        d = depFileFromOwnedRecords rs := by
  rw [decodeMonitorDepFile_eq, bind_eq_ok_iff]
  simp only [Prod.exists, checkEnvelope_ok_iff, decodeBody_ok_iff, exists_and_left]

/-! ## 7. One turn of the iterator -/

section Iterator

variable {bytes : List UInt8} {bodyEnd headerCount : Nat}

/-- What is left of the body at this position. -/
def remaining (bytes : List UInt8) (bodyEnd framePos : Nat) : List UInt8 :=
  (bytes.take bodyEnd).drop framePos

theorem remaining_length (hend : bodyEnd ≤ bytes.length) (framePos : Nat) :
    (remaining bytes bodyEnd framePos).length = bodyEnd - framePos := by
  rw [remaining, List.length_drop, List.length_take, Nat.min_eq_left hend]

theorem slice_remaining {framePos off n : Nat} (h : framePos + off + n ≤ bodyEnd) :
    ((remaining bytes bodyEnd framePos).drop off).take n =
      (bytes.drop (framePos + off)).take n := by
  rw [remaining, List.drop_drop, List.drop_take, List.take_take, Nat.min_eq_left (by omega)]

/-- The iterator reads lengths out of the whole file; a length that would cross the end of the
body is refused like one that is missing. -/
theorem nextRecord_eq (hend : bodyEnd + 4 ≤ bytes.length) {framePos : Nat}
    (hpos : framePos < bodyEnd) (expectedSeq : UInt64) :
    nextRecord bytes bodyEnd framePos expectedSeq =
      if NoFrame (remaining bytes bodyEnd framePos) then
        .error (.readerError mrTruncated (str "truncated iomon record frame"))
      else do
        let record ← callDecodeRecordPayload (firstPayload (remaining bytes bodyEnd framePos))
        raiseIf (record.seq ≠ expectedSeq) mrRecordOrderInvalid
          "iomon record sequence is not canonical"
        return (record, framePos + 4 + loadLe (remaining bytes bodyEnd framePos) 0 4) := by
  have hlen : (remaining bytes bodyEnd framePos).length = bodyEnd - framePos :=
    remaining_length (by omega) framePos
  unfold nextRecord readU32
  rw [readLe_ok (by omega), ok_bind]
  dsimp only
  by_cases h4 : framePos + 4 ≤ bodyEnd
  · have hload : loadLe (remaining bytes bodyEnd framePos) 0 4 = loadLe bytes framePos 4 := by
      rw [loadLe, loadLe, slice_remaining (by omega), Nat.add_zero]
    by_cases hno : NoFrame (remaining bytes bodyEnd framePos)
    · have hbad : loadLe bytes framePos 4 ≤ 0 ∨
          framePos + 4 + loadLe bytes framePos 4 > bodyEnd := by
        rw [NoFrame, hload, hlen] at hno
        omega
      rw [if_pos hno, raiseIf_of hbad]
      rfl
    · have hgood : ¬ (loadLe bytes framePos 4 ≤ 0 ∨
          framePos + 4 + loadLe bytes framePos 4 > bodyEnd) := by
        rw [NoFrame, hload, hlen] at hno
        omega
      rw [if_neg hno, raiseIf_of_not hgood, ok_bind, toOpenArray_ok (by omega) (by omega),
        ok_bind, take_drop_slice, firstPayload, hload, slice_remaining (by omega)]
  · have hno : NoFrame (remaining bytes bodyEnd framePos) := .inl (by omega)
    rw [if_pos hno, raiseIf_of (.inr (by omega))]
    rfl

theorem afterFrame_remaining (framePos : Nat) :
    remaining bytes bodyEnd (framePos + 4 + loadLe (remaining bytes bodyEnd framePos) 0 4) =
      afterFrame (remaining bytes bodyEnd framePos) := by
  rw [afterFrame, remaining, remaining, List.drop_drop, Nat.add_assoc]

/-- **One turn of the loop**, on what is left of the body. -/
theorem streamFrames_succ (hend : bodyEnd + 4 ≤ bytes.length) (fuel : Nat) {framePos : Nat}
    (hpos : framePos < bodyEnd) (expectedSeq decoded : UInt64) :
    streamFrames bytes bodyEnd headerCount (fuel + 1) framePos expectedSeq decoded =
      if NoFrame (remaining bytes bodyEnd framePos) then
        ([], .error (.readerError mrTruncated (str "truncated iomon record frame")))
      else
        match decodeRecordPayload (firstPayload (remaining bytes bodyEnd framePos)) with
        | .error e => ([], .error (.envelopeError e))
        | .ok r =>
          if r.seq ≠ expectedSeq then
            ([], .error (.readerError mrRecordOrderInvalid
              (str "iomon record sequence is not canonical")))
          else
            let rest := streamFrames bytes bodyEnd headerCount fuel
              (framePos + 4 + loadLe (remaining bytes bodyEnd framePos) 0 4) (expectedSeq + 1)
              (decoded + 1)
            (r :: rest.1, rest.2) := by
  rw [streamFrames, if_pos hpos, nextRecord_eq hend hpos]
  by_cases hno : NoFrame (remaining bytes bodyEnd framePos)
  · rw [if_pos hno, if_pos hno]
  rw [if_neg hno, if_neg hno, callDecodeRecordPayload]
  cases decodeRecordPayload (firstPayload (remaining bytes bodyEnd framePos)) with
  | error e => rfl
  | ok r =>
    rw [ok_bind]
    by_cases hseq : r.seq ≠ expectedSeq
    · rw [raiseIf_of hseq]
      simp only [if_pos hseq]
      rfl
    · rw [raiseIf_of_not hseq]
      simp only [if_neg hseq]
      rfl

theorem ofNat_succ_add_one (n : Nat) : UInt64.ofNat n + 1 = UInt64.ofNat (n + 1) := by
  rw [UInt64.ofNat_add n 1]
  rfl

/-- Past the last frame only the count is left to compare. -/
theorem frameCount_ok_iff (hend : bodyEnd + 4 ≤ bytes.length) {framePos : Nat}
    (hle : bodyEnd ≤ framePos) (n m : Nat) (rs : List MonitorRecord) :
    (([] : List MonitorRecord), raiseIf ((UInt64.ofNat m).toNat ≠ headerCount)
        mrSemanticValidationFailed "iomon frame count mismatch") = (rs, .ok ()) ↔
      scan decodeRecordPayload (remaining bytes bodyEnd framePos) = (rs, true) ∧
        NumberedFrom n rs ∧ (m + rs.length) % 2 ^ 64 = headerCount := by
  have hnil : remaining bytes bodyEnd framePos = [] :=
    List.eq_nil_of_length_eq_zero (by rw [remaining_length (by omega)]; omega)
  rw [hnil, scan_nil, Prod.mk.injEq, raiseIf_ok_iff, not_not, UInt64.toNat_ofNat']
  constructor
  · rintro ⟨rfl, hcount⟩
    exact ⟨rfl, fun i hi => absurd hi (Nat.not_lt_zero i), hcount⟩
  · rintro ⟨hrs, _, hcount⟩
    obtain ⟨rfl, _⟩ := Prod.mk.inj hrs
    exact ⟨rfl, hcount⟩

/-- **What the loop accepts**: the frames that are left, numbered on from `n`, with as many of
them as the header says. -/
theorem streamFrames_ok_iff (hend : bodyEnd + 4 ≤ bytes.length) (fuel framePos n m : Nat)
    (hfuel : bodyEnd ≤ fuel + framePos) (rs : List MonitorRecord) :
    streamFrames bytes bodyEnd headerCount fuel framePos (UInt64.ofNat (n + 1)) (UInt64.ofNat m) =
        (rs, .ok ()) ↔
      scan decodeRecordPayload (remaining bytes bodyEnd framePos) = (rs, true) ∧
        NumberedFrom n rs ∧ (m + rs.length) % 2 ^ 64 = headerCount := by
  induction fuel generalizing framePos n m rs with
  | zero =>
    rw [streamFrames]
    exact frameCount_ok_iff hend (by omega) n m rs
  | succ fuel ih =>
    by_cases hpos : framePos < bodyEnd
    · have hlen : (remaining bytes bodyEnd framePos).length = bodyEnd - framePos :=
        remaining_length (by omega) framePos
      have hne : remaining bytes bodyEnd framePos ≠ [] :=
        List.ne_nil_of_length_pos (by omega)
      rw [streamFrames_succ hend fuel hpos]
      by_cases hno : NoFrame (remaining bytes bodyEnd framePos)
      · rw [if_pos hno, scan_of_noFrame _ hne hno]
        simp
      rw [if_neg hno, scan_of_frame _ hno]
      cases decodeRecordPayload (firstPayload (remaining bytes bodyEnd framePos)) with
      | error e => simp
      | ok r =>
        dsimp only
        by_cases hseq : r.seq = UInt64.ofNat (n + 1)
        · rw [if_neg (not_not.mpr hseq), ofNat_succ_add_one, ofNat_succ_add_one,
            ← afterFrame_remaining]
          have ih := fun rs => ih (framePos + 4 + loadLe (remaining bytes bodyEnd framePos) 0 4)
            (n + 1) (m + 1) (by omega) rs
          cases rs with
          | nil => simp
          | cons r' rs =>
            have hcount : m + (r' :: rs).length = m + 1 + rs.length := by
              rw [List.length_cons]
              omega
            rw [numberedFrom_cons, hcount]
            simp only [Prod.ext_iff, List.cons.injEq] at ih ⊢
            constructor
            · rintro ⟨⟨rfl, hys⟩, hok⟩
              obtain ⟨⟨hscan, hclean⟩, hnum, hc⟩ := (ih rs).mp ⟨hys, hok⟩
              exact ⟨⟨⟨rfl, hscan⟩, hclean⟩, ⟨hseq, hnum⟩, hc⟩
            · rintro ⟨⟨⟨rfl, hscan⟩, hclean⟩, ⟨_, hnum⟩, hc⟩
              obtain ⟨hys, hok⟩ := (ih rs).mpr ⟨⟨hscan, hclean⟩, hnum, hc⟩
              exact ⟨⟨rfl, hys⟩, hok⟩
        · rw [if_pos hseq]
          refine iff_of_false (by simp) ?_
          rintro ⟨hscan, hnum, _⟩
          obtain ⟨rfl, _⟩ := Prod.mk.inj hscan
          exact hseq (numberedFrom_cons.mp hnum).1
    · rw [streamFrames, if_neg hpos]
      exact frameCount_ok_iff hend (by omega) n m rs

end Iterator

/-- The body is what lies between the header and the trailer. -/
theorem remaining_bodyOf (bytes : List UInt8) (bodyLen : Nat) :
    remaining bytes (24 + bodyLen) 24 = bodyOf bytes bodyLen := take_drop_slice bytes 24 bodyLen

/-- The iterator, behind its header checks. -/
theorem streamMonitorDepFileRecords_eq (options : MonitorDepFileReaderOptions)
    (bytes : List UInt8) :
    streamMonitorDepFileRecords options bytes =
      match checkEnvelope options bytes with
      | .error e => ([], .error e)
      | .ok (headerCount, bodyLen) =>
        streamFrames bytes (24 + bodyLen) headerCount bytes.length 24 1 0 := by
  rw [streamMonitorDepFileRecords, streamEnvelope_eq]
  cases checkEnvelope options bytes <;> rfl

/-- **What the iterator runs through to the end.** -/
theorem streamMonitorDepFileRecords_ok_iff {options : MonitorDepFileReaderOptions}
    {bytes : List UInt8} {rs : List MonitorRecord} :
    streamMonitorDepFileRecords options bytes = (rs, .ok ()) ↔
      ∃ headerCount bodyLen, EnvelopeOk options bytes headerCount bodyLen ∧
        scan decodeRecordPayload (bodyOf bytes bodyLen) = (rs, true) ∧
        rs.length % 2 ^ 64 = headerCount ∧ NumberedFrom 0 rs := by
  rw [streamMonitorDepFileRecords_eq]
  cases hcheck : checkEnvelope options bytes with
  | error e =>
    refine iff_of_false (by simp) ?_
    rintro ⟨c, l, henv, _⟩
    rw [checkEnvelope_ok_iff.mpr henv] at hcheck
    exact absurd hcheck (by simp)
  | ok fields =>
    obtain ⟨c, l⟩ := fields
    have henv := checkEnvelope_ok_iff.mp hcheck
    have hlen := henv.length
    have hframes := @streamFrames_ok_iff bytes (24 + l) c (by omega) bytes.length 24 0 0 (by omega)
      rs
    rw [remaining_bodyOf, Nat.zero_add, Nat.zero_add] at hframes
    refine Iff.trans hframes ?_
    constructor
    · rintro ⟨hscan, hnum, hcount⟩
      exact ⟨c, l, henv, hscan, hcount, hnum⟩
    · rintro ⟨c', l', henv', hscan, hcount, hnum⟩
      obtain rfl : l' = l := henv'.lengthField.symm.trans henv.lengthField
      obtain rfl : c' = c := henv'.count.symm.trans henv.count
      exact ⟨hscan, hnum, hcount⟩

/-! ## 8. The readers agree -/

/-- **The streaming reader agrees with the materialising one.**  On every byte sequence and under
every option the iterator finishes exactly when the depfile reader accepts, and then it has
yielded the depfile's records. -/
theorem stream_agrees (options : MonitorDepFileReaderOptions) (bytes : List UInt8) :
    ((streamMonitorDepFileRecords options bytes).2 = .ok () ↔
        ∃ d, decodeMonitorDepFile options bytes = .ok d) ∧
      ∀ d, decodeMonitorDepFile options bytes = .ok d →
        (streamMonitorDepFileRecords options bytes).1 = d.records := by
  have hsame : ∀ d, decodeMonitorDepFile options bytes = .ok d →
      streamMonitorDepFileRecords options bytes = (d.records, .ok ()) := by
    intro d hd
    obtain ⟨c, l, rs, henv, hscan, hcount, hnum, rfl⟩ := decodeMonitorDepFile_ok_iff.mp hd
    exact streamMonitorDepFileRecords_ok_iff.mpr ⟨c, l, henv, hscan, hcount, hnum⟩
  refine ⟨⟨?_, ?_⟩, ?_⟩
  · intro hok
    obtain ⟨c, l, henv, hscan, hcount, hnum⟩ :=
      streamMonitorDepFileRecords_ok_iff.mp (Prod.ext (rfl : _ = _) hok)
    exact ⟨_, decodeMonitorDepFile_ok_iff.mpr ⟨c, l, _, henv, hscan, hcount, hnum, rfl⟩⟩
  · rintro ⟨d, hd⟩
    rw [hsame d hd]
  · intro d hd
    rw [hsame d hd]

end IoMon
