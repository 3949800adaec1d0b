/-
# The shared-set element: what makes two observations the same fact

`shm/dep_queue.nim` and the element encoder of `writer.nim`.  On Linux a record travels as an
element of a grow-only shared-memory set, so its bytes are its identity.  `depIdentityScope`
decides per kind which fields belong to that identity: a path-scoped or fact-scoped observation
drops the observing process and normalises its outcome, a process-scoped one keeps everything
but the sequence number.  A producer then appends its image string, so that two incarnations of
one process stay apart, except for the fact-scoped kinds.

`decode_encodeDepSetElement` is the round trip: what the consumer decodes from an element is the
identity form of the record that was published, whatever image string follows.
`depSetElement_exact` adds that nothing else goes into the key: two elements are the same bytes
exactly when the identity forms and, where the kind keeps it, the images are the same.
-/
import IoMon.Encode

namespace IoMon

open ByteText ByteCodec MonitorRecordKind MonitorObservationKind ProbeResult

/-! ## 1. Identity -/

inductive DepIdentityScope
  | disProcessScoped | disPathScoped | disFactScoped
  deriving DecidableEq, Repr

open DepIdentityScope

def depIdentityScope : MonitorRecordKind → DepIdentityScope
  | mrFileOpen | mrFileRead | mrPathProbe | mrDirectoryEnumerate => disPathScoped
  | mrLibraryLoad | mrEnvRead | mrSysctlRead | mrTimeRead => disFactScoped
  | mrProcessStart | mrProcessExec | mrProcessSpawn | mrFileWrite | mrEventLoss
  | mrBackendProfile | mrCapabilityGap | mrIpcConnect | mrNonDeterministic
  | mrExternalContent | mrPathMutation => disProcessScoped

def depIdentityKeepsIncarnation (kind : MonitorRecordKind) : Bool :=
  decide (depIdentityScope kind ≠ disFactScoped)

/-- The outcome and flags that belong to the identity. -/
def identityNormalizedOutcome (kind : MonitorRecordKind) (rawResult : Int64)
    (rawFlags : UInt32) : Int64 × UInt32 :=
  match kind with
  | mrFileRead | mrFileWrite => (0, 0)
  | mrFileOpen | mrPathProbe => (if rawResult < 0 then -1 else 0, rawFlags)
  | _ => (rawResult, rawFlags)

/-- The record whose fields `encodeDepRecordWithSeq` writes: the given sequence number and, when
the identity scope applies and the kind is not process-scoped, no observer. -/
def scopedRecord (r : MonitorRecord) (seqValue : UInt64) (applyIdentityScope : Bool) :
    MonitorRecord :=
  let scope := if applyIdentityScope then depIdentityScope r.kind else disProcessScoped
  if scope = disPathScoped ∨ scope = disFactScoped then
    let normalized := identityNormalizedOutcome r.kind r.result r.flags
    { r with seq := seqValue, osPid := 0, parentOsPid := 0, threadId := 0, childOsPid := 0,
             result := normalized.1, flags := normalized.2 }
  else { r with seq := seqValue }

/-- The identity form of a record: what a set element says about it. -/
def identityRecord (r : MonitorRecord) : MonitorRecord := scopedRecord r 0 true

@[simp] theorem identityRecord_kind (r : MonitorRecord) : (identityRecord r).kind = r.kind := by
  unfold identityRecord scopedRecord
  simp only [if_true]
  split <;> rfl

@[simp] theorem identityRecord_observationKind (r : MonitorRecord) :
    (identityRecord r).observationKind = r.observationKind := by
  unfold identityRecord scopedRecord
  simp only [if_true]
  split <;> rfl

@[simp] theorem identityRecord_path (r : MonitorRecord) : (identityRecord r).path = r.path := by
  unfold identityRecord scopedRecord
  simp only [if_true]
  split <;> rfl

@[simp] theorem identityRecord_detail (r : MonitorRecord) :
    (identityRecord r).detail = r.detail := by
  unfold identityRecord scopedRecord
  simp only [if_true]
  split <;> rfl

/-! ## 2. Encoding into a bounded buffer -/

/-- Append to a buffer of `cap` bytes; `none` is the encoder's `-1`. -/
def putBytes (cap : Nat) (buf bytes : List UInt8) : Option (List UInt8) :=
  if buf.length + bytes.length > cap then none else some (buf ++ bytes)

/-- A 64-bit varint: ten groups of seven bits. -/
def varint (v : Nat) : List UInt8 := putVarint 10 v

def encodeDepRecordWithSeq (r : MonitorRecord) (cap : Nat) (seqValue : UInt64)
    (applyIdentityScope : Bool) : Option (List UInt8) :=
  let sr := scopedRecord r seqValue applyIdentityScope
  (putBytes cap [] (storeRecordFixedHeader sr)).bind fun buf =>
  (putBytes cap buf (varint sr.path.length)).bind fun buf =>
  (putBytes cap buf sr.path).bind fun buf =>
  (putBytes cap buf (varint sr.detail.length)).bind fun buf =>
  putBytes cap buf sr.detail

def encodeDepRecordIdentity (r : MonitorRecord) (cap : Nat) : Option (List UInt8) :=
  encodeDepRecordWithSeq r cap 0 true

inductive DepSetElemFit
  | dseRequireFit | dseTruncateSuffix
  deriving DecidableEq, Repr

open DepSetElemFit

/-- The element of a record published by a process whose image string is `setElemImage`. -/
def encodeDepSetElement (setElemImage : NimStr) (r : MonitorRecord) (cap : Nat)
    (fit : DepSetElemFit) : Option (List UInt8) :=
  (encodeDepRecordIdentity r cap).bind fun buf =>
    if depIdentityKeepsIncarnation r.kind then
      match fit with
      | dseRequireFit => putBytes cap buf setElemImage
      | dseTruncateSuffix => some (buf ++ setElemImage.take (cap - buf.length))
    else some buf

/-- The bytes of a record, without the buffer. -/
def depRecordBytes (r : MonitorRecord) : List UInt8 :=
  storeRecordFixedHeader r ++ (varint r.path.length ++ (r.path ++
    (varint r.detail.length ++ r.detail)))

theorem putBytes_eq_some {cap : Nat} {buf bytes e : List UInt8} :
    putBytes cap buf bytes = some e ↔ e = buf ++ bytes ∧ e.length ≤ cap := by
  unfold putBytes
  split
  · rename_i hfull
    refine iff_of_false (by simp) ?_
    rintro ⟨rfl, hle⟩
    rw [List.length_append] at hle
    omega
  · rename_i hfit
    rw [Option.some.injEq]
    constructor
    · rintro rfl
      exact ⟨rfl, by rw [List.length_append]; omega⟩
    · exact fun h => h.1.symm

/-- Two writes into the buffer are one: the space check is cumulative. -/
theorem putBytes_putBytes (cap : Nat) (buf a b : List UInt8) :
    ((putBytes cap buf a).bind fun x => putBytes cap x b) = putBytes cap buf (a ++ b) := by
  unfold putBytes
  simp only [List.length_append]
  split
  · rw [if_pos (by omega)]
    rfl
  · rw [Option.bind_some, List.length_append, List.append_assoc, Nat.add_assoc]

theorem putBytes_bind_bind {α : Type} (cap : Nat) (buf a b : List UInt8)
    (k : List UInt8 → Option α) :
    ((putBytes cap buf a).bind fun x => (putBytes cap x b).bind k) =
      (putBytes cap buf (a ++ b)).bind k := by
  rw [← putBytes_putBytes, Option.bind_assoc]

/-- **The encoder writes the whole record or reports that it does not fit.** -/
theorem encodeDepRecordWithSeq_eq (r : MonitorRecord) (cap : Nat) (seqValue : UInt64)
    (apply : Bool) :
    encodeDepRecordWithSeq r cap seqValue apply =
      putBytes cap [] (depRecordBytes (scopedRecord r seqValue apply)) := by
  unfold encodeDepRecordWithSeq depRecordBytes
  dsimp only
  rw [putBytes_bind_bind, putBytes_bind_bind, putBytes_bind_bind, putBytes_putBytes]
  simp only [List.append_assoc]

/-- An encoded element is the record's identity form followed by some suffix, and fits. -/
theorem encodeDepSetElement_some {image : NimStr} {r : MonitorRecord} {cap : Nat}
    {fit : DepSetElemFit} {e : List UInt8} (h : encodeDepSetElement image r cap fit = some e) :
    ∃ suffix, e = depRecordBytes (identityRecord r) ++ suffix ∧ e.length ≤ cap := by
  unfold encodeDepSetElement encodeDepRecordIdentity at h
  rw [encodeDepRecordWithSeq_eq, putBytes] at h
  split at h
  · exact absurd h (by simp)
  rename_i hfit
  rw [List.length_nil, Nat.zero_add] at hfit
  rw [Option.bind_some, List.nil_append] at h
  split at h
  · cases fit with
    | dseRequireFit =>
      simp only [putBytes] at h
      split at h
      · exact absurd h (by simp)
      · simp only [Option.some.injEq] at h
        exact ⟨image, h.symm, by rw [← h, List.length_append]; omega⟩
    | dseTruncateSuffix =>
      simp only [Option.some.injEq] at h
      refine ⟨_, h.symm, ?_⟩
      rw [← h, List.length_append, List.length_take]
      omega
  · simp only [Option.some.injEq] at h
    refine ⟨[], by rw [List.append_nil]; exact h.symm, ?_⟩
    rw [← h]; omega

/-! ## 3. Decoding -/

/-- The run-time checks of a Nim build that abort the program. -/
inductive NimDefect
  | rangeDefect | overflowDefect
  deriving DecidableEq, Repr

/-- A varint length and that many bytes: what they are and what follows them.  The inner `none`
is `ok = false`; `int(length)` and the addition to the read position are checked conversions. -/
def getLengthPrefixed (bufLen : Nat) (bytes : List UInt8) :
    Except NimDefect (Option (NimStr × List UInt8)) :=
  match getVarint 64 0 0 bytes with
  | none => .ok none
  | some (value, rest) =>
    let length := value % 2 ^ 64
    let pos := bufLen - rest.length
    if length ≥ 2 ^ 63 then .error .rangeDefect
    else if pos + length ≥ 2 ^ 63 then .error .overflowDefect
    else if pos + length > bufLen then .ok none
    else .ok (some (rest.take length, rest.drop length))

/-- `decodeDepRecord`: `.ok none` is `ok = false`.  Bytes behind the detail are ignored. -/
def decodeDepRecord (buf : List UInt8) : Except NimDefect (Option MonitorRecord) :=
  if buf.length < RecordFixedHeaderLen then .ok none
  else
    match MonitorRecordKind.ofOrd (loadLe buf 0 2), MonitorObservationKind.ofOrd (loadLe buf 2 2),
        ProbeResult.ofOrd (loadLe buf 56 4) with
    | some kind, some observationKind, some probeResult =>
      match getLengthPrefixed buf.length (buf.drop RecordFixedHeaderLen) with
      | .error e => .error e
      | .ok none => .ok none
      | .ok (some (path, rest)) =>
        match getLengthPrefixed buf.length rest with
        | .error e => .error e
        | .ok none => .ok none
        | .ok (some (detail, _)) =>
          .ok (some { loadRecordFixedHeader buf kind observationKind probeResult with
                      path := path, detail := detail })
    | _, _, _ => .ok none

theorem getLengthPrefixed_put {s : NimStr} {bufLen : Nat} (rest : List UInt8)
    (hpos : s.length + rest.length ≤ bufLen) (hbuf : bufLen < 2 ^ 63) :
    getLengthPrefixed bufLen (varint s.length ++ (s ++ rest)) = .ok (some (s, rest)) := by
  have hvar : getVarint 64 0 0 (varint s.length ++ (s ++ rest)) = some (s.length, s ++ rest) := by
    rw [varint, getVarint_putVarint 9 s.length 0 0 _ (by norm_num; omega) (by omega)]
    simp only [Nat.zero_add, pow_zero, Nat.mul_one]
  have hmod : s.length % 2 ^ 64 = s.length := Nat.mod_eq_of_lt (by omega)
  have h1 : ¬ s.length ≥ 2 ^ 63 := by omega
  have h2 : ¬ bufLen - (s ++ rest).length + s.length ≥ 2 ^ 63 := by
    rw [List.length_append]; omega
  have h3 : ¬ bufLen - (s ++ rest).length + s.length > bufLen := by
    rw [List.length_append]; omega
  simp only [getLengthPrefixed, hvar, hmod, if_neg h1, if_neg h2, if_neg h3, List.take_left,
    List.drop_left]

/-- The bytes of a record decode to the record, whatever follows them. -/
theorem decodeDepRecord_bytes (r : MonitorRecord) (suffix : List UInt8)
    (h : (depRecordBytes r ++ suffix).length < 2 ^ 63) :
    decodeDepRecord (depRecordBytes r ++ suffix) = .ok (some r) := by
  have hlen : (depRecordBytes r ++ suffix).length = RecordFixedHeaderLen +
      (varint r.path.length).length + r.path.length + (varint r.detail.length).length +
        r.detail.length + suffix.length := by
    simp only [depRecordBytes, List.length_append, storeRecordFixedHeader_length]
    omega
  have hsplit : depRecordBytes r ++ suffix = storeRecordFixedHeader r ++
      (varint r.path.length ++ (r.path ++ (varint r.detail.length ++ (r.detail ++ suffix)))) := by
    simp only [depRecordBytes, List.append_assoc]
  have hhdr : ¬ (depRecordBytes r ++ suffix).length < RecordFixedHeaderLen := by omega
  have hdrop : (depRecordBytes r ++ suffix).drop RecordFixedHeaderLen =
      varint r.path.length ++ (r.path ++ (varint r.detail.length ++ (r.detail ++ suffix))) := by
    rw [hsplit]
    exact List.drop_left' (storeRecordFixedHeader_length r)
  have hbound : r.path.length + (varint r.detail.length ++ (r.detail ++ suffix)).length ≤
      (depRecordBytes r ++ suffix).length := by
    rw [hlen]
    simp only [List.length_append]
    omega
  have hpath := getLengthPrefixed_put (s := r.path) _ hbound h
  have hdetail := getLengthPrefixed_put (s := r.detail) suffix (by omega) h
  unfold decodeDepRecord
  rw [if_neg hhdr, hdrop, hpath]
  dsimp only
  rw [hdetail]
  simp only [hsplit, loadLe_kind, loadLe_observationKind, loadLe_probeResult,
    MonitorRecordKind.ofOrd_ord, MonitorObservationKind.ofOrd_ord, ProbeResult.ofOrd_ord,
    loadRecordFixedHeader_store]

/-- **The element round trip.**  What is decoded from an element is the identity form of the
record it was made of; the image suffix is ignored. -/
theorem decode_encodeDepSetElement {image : NimStr} {r : MonitorRecord} {cap : Nat}
    {fit : DepSetElemFit} {e : List UInt8} (hcap : cap < 2 ^ 63)
    (h : encodeDepSetElement image r cap fit = some e) :
    decodeDepRecord e = .ok (some (identityRecord r)) := by
  obtain ⟨suffix, rfl, hle⟩ := encodeDepSetElement_some h
  exact decodeDepRecord_bytes (identityRecord r) suffix (by omega)

/-! ## 4. The key is exact -/

/-- The image bytes that belong to the key of this kind. -/
def imageSuffix (image : NimStr) (kind : MonitorRecordKind) : List UInt8 :=
  if depIdentityKeepsIncarnation kind then image else []

/-- An element that has to fit is the identity form followed by the whole image suffix. -/
theorem encodeDepSetElement_requireFit {image : NimStr} {r : MonitorRecord} {cap : Nat}
    {e : List UInt8} (h : encodeDepSetElement image r cap dseRequireFit = some e) :
    e = depRecordBytes (identityRecord r) ++ imageSuffix image r.kind ∧ e.length ≤ cap := by
  unfold encodeDepSetElement encodeDepRecordIdentity at h
  rw [encodeDepRecordWithSeq_eq] at h
  obtain ⟨buf, hbuf, h⟩ := Option.bind_eq_some_iff.mp h
  obtain ⟨rfl, hfit⟩ := putBytes_eq_some.mp hbuf
  unfold imageSuffix
  by_cases hkeeps : depIdentityKeepsIncarnation r.kind = true
  · rw [if_pos hkeeps] at h ⊢
    exact putBytes_eq_some.mp h
  · rw [if_neg hkeeps] at h ⊢
    rw [List.append_nil]
    obtain rfl := Option.some.inj h
    exact ⟨rfl, hfit⟩

/-- Behind equal decodings, equal bytes leave equal suffixes. -/
theorem depRecordBytes_append_inj {a b : MonitorRecord} {s t : List UInt8}
    (hlen : (depRecordBytes a ++ s).length < 2 ^ 63)
    (h : depRecordBytes a ++ s = depRecordBytes b ++ t) : a = b ∧ s = t := by
  have ha := decodeDepRecord_bytes a s hlen
  have hb := decodeDepRecord_bytes b t (h ▸ hlen)
  rw [h, hb] at ha
  obtain rfl : b = a := Option.some.inj (Except.ok.inj ha)
  exact ⟨rfl, List.append_cancel_left h⟩

/-- **The set-element key is exact.**  Every element that fits decodes to the identity form of its
record, and two elements are byte-equal if and only if the identity forms are equal and, for the
kinds that keep it, so are the images. -/
theorem depSetElement_exact {r₁ r₂ : MonitorRecord} {i₁ i₂ : NimStr} {cap₁ cap₂ : Nat}
    {e₁ e₂ : List UInt8} (hcap₁ : cap₁ < 2 ^ 63) (hcap₂ : cap₂ < 2 ^ 63)
    (h₁ : encodeDepSetElement i₁ r₁ cap₁ dseRequireFit = some e₁)
    (h₂ : encodeDepSetElement i₂ r₂ cap₂ dseRequireFit = some e₂) :
    decodeDepRecord e₁ = .ok (some (identityRecord r₁)) ∧
      decodeDepRecord e₂ = .ok (some (identityRecord r₂)) ∧
      (e₁ = e₂ ↔ identityRecord r₁ = identityRecord r₂ ∧
        (depIdentityKeepsIncarnation r₁.kind = true → i₁ = i₂)) := by
  refine ⟨decode_encodeDepSetElement hcap₁ h₁, decode_encodeDepSetElement hcap₂ h₂, ?_⟩
  obtain ⟨rfl, hle₁⟩ := encodeDepSetElement_requireFit h₁
  obtain ⟨rfl, hle₂⟩ := encodeDepSetElement_requireFit h₂
  have hkind : identityRecord r₁ = identityRecord r₂ → r₂.kind = r₁.kind := by
    intro h
    rw [← identityRecord_kind r₂, ← h, identityRecord_kind]
  constructor
  · intro h
    obtain ⟨hid, hsuffix⟩ := depRecordBytes_append_inj (by omega) h
    refine ⟨hid, fun hkeeps => ?_⟩
    rwa [imageSuffix, imageSuffix, hkind hid, if_pos hkeeps, if_pos hkeeps] at hsuffix
  · rintro ⟨hid, himage⟩
    rw [hid, imageSuffix, imageSuffix, hkind hid]
    by_cases hkeeps : depIdentityKeepsIncarnation r₁.kind = true
    · rw [if_pos hkeeps, if_pos hkeeps, himage hkeeps]
    · rw [if_neg hkeeps, if_neg hkeeps]

/-- One library, loaded by some process. -/
def libcLoad (osPid : UInt64) : MonitorRecord where
  kind := mrLibraryLoad
  observationKind := moFileRead
  osPid := osPid
  path := str "/usr/lib/libc.so.6"

/-- Two processes with different images that load it publish the same element. -/
theorem depSetElement_exact_libcLoad :
    ∃ e₁ e₂, encodeDepSetElement (str "/bin/sh") (libcLoad 7) 512 dseRequireFit = some e₁ ∧
      encodeDepSetElement (str "/usr/bin/make") (libcLoad 8) 512 dseRequireFit = some e₂ ∧
      e₁ = e₂ := by
  have h₁ : encodeDepSetElement (str "/bin/sh") (libcLoad 7) 512 dseRequireFit =
      some (depRecordBytes (identityRecord (libcLoad 7))) := by decide +kernel
  have h₂ : encodeDepSetElement (str "/usr/bin/make") (libcLoad 8) 512 dseRequireFit =
      some (depRecordBytes (identityRecord (libcLoad 8))) := by decide +kernel
  have hcap : 512 < 2 ^ 63 := by decide
  exact ⟨_, _, h₁, h₂, (depSetElement_exact hcap hcap h₁ h₂).2.2.mpr ⟨by decide, by decide⟩⟩

end IoMon
