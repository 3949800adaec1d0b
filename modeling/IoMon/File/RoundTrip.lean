/-
# The canonical round trip

A list of records is written as the file of its canonical form, and the file reads back as that
form.  The one thing that can break the round trip is the 32-bit frame length: it counts the
60-byte header, both string lengths and both strings, so it wraps a little before either string
reaches 2^32 bytes.  Nothing in the encoder checks it; `FitsWire` is the exact condition.

  * `envelopeOk_file` -- a written file passes the header checks and its body is found;
  * `fitsWire_of_decoded` -- whatever is read out of a file fits a frame;
  * `canonical_round_trip`, `decode_encodeCanonical_iff`;
  * `tolerant_decoding` -- a fragment file cut at any byte.
-/
import IoMon.File.Reader

namespace IoMon

open ByteText ByteCodec

/-! ## 1. The layout of a file -/

section Layout

variable (count bodyLen : Nat) (sum : UInt64) (body : List UInt8)

/-- Header, body and trailer. -/
def fileOf : List UInt8 := fileHeader count bodyLen ++ (body ++ fileTrailer count sum)

@[simp] theorem fileHeader_length : (fileHeader count bodyLen).length = 24 := by
  simp only [fileHeader, List.length_append, leBytes_length]
  rfl

@[simp] theorem fileTrailer_length : (fileTrailer count sum).length = 20 := by
  simp only [fileTrailer, List.length_append, leBytes_length]
  rfl

theorem fileOf_length : (fileOf count bodyLen sum body).length = 44 + body.length := by
  simp only [fileOf, List.length_append, fileHeader_length, fileTrailer_length]
  omega

theorem fileOf_magic : (fileOf count bodyLen sum body).take 4 = IomonMagic := by
  rw [fileOf, fileHeader, List.append_assoc]
  exact List.take_left' rfl

/-- Past the magic, the header is a sequence of words. -/
theorem loadLe_header {off k : Nat} (hoff : 4 ≤ off) (rest : List UInt8) :
    loadLe (fileHeader count bodyLen ++ rest) off k =
      loadLe (leBytes 2 IomonVersion.toNat ++ (leBytes 2 CanonicalFileKind.toNat ++
        (leBytes 8 count ++ (leBytes 8 bodyLen ++ rest)))) (off - 4) k := by
  have hmagic : off = IomonMagic.length + (off - 4) := by
    rw [show IomonMagic.length = 4 from rfl]
    omega
  rw [hmagic, fileHeader, List.append_assoc, loadLe_append]
  simp only [List.append_assoc, Nat.add_sub_cancel_left, show IomonMagic.length = 4 from rfl]

theorem fileOf_version : loadLe (fileOf count bodyLen sum body) 4 2 = IomonVersion.toNat := by
  rw [fileOf, loadLe_header _ _ (by omega)]
  exact loadLe_zero (by decide) _

theorem fileOf_count : loadLe (fileOf count bodyLen sum body) 8 8 = count % 256 ^ 8 := by
  rw [fileOf, loadLe_header _ _ (by omega)]
  simp (disch := omega) only [loadLe_skip, Nat.reduceSub]
  exact loadLe_zero_mod 8 count _

theorem fileOf_bodyLen : loadLe (fileOf count bodyLen sum body) 16 8 = bodyLen % 256 ^ 8 := by
  rw [fileOf, loadLe_header _ _ (by omega)]
  simp (disch := omega) only [loadLe_skip, Nat.reduceSub]
  exact loadLe_zero_mod 8 bodyLen _

theorem fileOf_drop_header :
    (fileOf count bodyLen sum body).drop 24 = body ++ fileTrailer count sum :=
  List.drop_left' (fileHeader_length count bodyLen)

theorem fileOf_body : bodyOf (fileOf count bodyLen sum body) body.length = body := by
  rw [bodyOf, fileOf_drop_header, List.take_left]

theorem fileOf_drop_body :
    (fileOf count bodyLen sum body).drop (24 + body.length) = fileTrailer count sum := by
  rw [← List.drop_drop, fileOf_drop_header, List.drop_left]

theorem fileOf_trailerMagic :
    ((fileOf count bodyLen sum body).drop (24 + body.length)).take 4 = IomonTrailerMagic := by
  rw [fileOf_drop_body, fileTrailer]
  exact List.take_left' rfl

/-- Past its magic, the trailer is two words. -/
theorem loadLe_trailer (off k : Nat) :
    loadLe (fileOf count bodyLen sum body) (28 + body.length + off) k =
      loadLe (leBytes 8 count ++ leBytes 8 sum.toNat) off k := by
  have hdrop : (fileOf count bodyLen sum body).drop (28 + body.length + off) =
      (leBytes 8 count ++ leBytes 8 sum.toNat).drop off := by
    have hoff : 28 + body.length + off = 24 + body.length + (IomonTrailerMagic.length + off) := by
      rw [show IomonTrailerMagic.length = 4 from rfl]
      omega
    rw [hoff, ← List.drop_drop, fileOf_drop_body, fileTrailer, ← List.drop_drop, List.drop_left]
  rw [loadLe, loadLe, hdrop]

theorem fileOf_trailerCount :
    loadLe (fileOf count bodyLen sum body) (28 + body.length) 8 = count % 256 ^ 8 := by
  rw [← Nat.add_zero (28 + body.length), loadLe_trailer]
  exact loadLe_zero_mod 8 count _

theorem fileOf_trailerChecksum :
    loadLe (fileOf count bodyLen sum body) (36 + body.length) 8 = sum.toNat := by
  rw [show 36 + body.length = 28 + body.length + 8 by omega, loadLe_trailer,
    loadLe_skip (Nat.le_refl 8), ← List.append_nil (leBytes 8 sum.toNat)]
  exact loadLe_zero (u64_lt_pow sum) []

end Layout

/-- **A written file passes the header checks.** -/
theorem envelopeOk_file {options : MonitorDepFileReaderOptions} {count : Nat} {body : List UInt8}
    (hcount : count ≤ options.maxObservationCount.toNat) (hbody : 44 + body.length < 2 ^ 63) :
    EnvelopeOk options (fileOf count body.length (checksum body) body) count body.length := by
  have hmax := u64_lt_pow options.maxObservationCount
  have hmod : count % 256 ^ 8 = count := Nat.mod_eq_of_lt (by omega)
  constructor
  case long => rw [fileOf_length]; omega
  case magic => exact fileOf_magic ..
  case version => exact fileOf_version ..
  case count => rw [fileOf_count, hmod]
  case lengthField => rw [fileOf_bodyLen, Nat.mod_eq_of_lt (by omega)]
  case limit => exact hcount
  case fits => exact hbody
  case length => exact fileOf_length ..
  case trailerMagic => exact fileOf_trailerMagic ..
  case trailerCount => rw [fileOf_trailerCount, hmod]
  case trailerChecksum =>
    intro _
    rw [fileOf_trailerChecksum, fileOf_body]

/-! ## 2. What the record decoder accepts fits a frame -/

theorem readString_ok {bytes : List UInt8} {pos next : Nat} {s : NimStr}
    (h : readString bytes pos = .ok (s, next)) : next = pos + 4 + s.length := by
  unfold readString readU32Le at h
  split at h
  · exact absurd h (by simp)
  · rename_i length pos' hread
    split at hread
    · exact absurd hread (by simp [raiseEnvelopeError])
    simp only [Except.ok.injEq, Prod.mk.injEq] at hread
    obtain ⟨_, rfl⟩ := hread
    split at h
    · exact absurd h (by simp [raiseEnvelopeError])
    · rename_i hfit
      simp only [Except.ok.injEq, Prod.mk.injEq] at h
      obtain ⟨rfl, rfl⟩ := h
      rw [List.length_take, List.length_drop]
      omega

/-- A payload that decodes is exactly as long as the record it decodes to. -/
theorem decodeRecordPayload_length {payload : List UInt8} {r : MonitorRecord}
    (h : decodeRecordPayload payload = .ok r) :
    payload.length = RecordFixedHeaderLen + 4 + r.path.length + 4 + r.detail.length := by
  unfold decodeRecordPayload at h
  split at h
  · exact absurd h (by simp [raiseEnvelopeError])
  split at h
  · exact absurd h (by simp [raiseEnvelopeError])
  split at h
  · exact absurd h (by simp [raiseEnvelopeError])
  split at h
  · exact absurd h (by simp [raiseEnvelopeError])
  split at h
  · exact absurd h (by simp)
  rename_i path pos hpath
  split at h
  · exact absurd h (by simp)
  rename_i detail pos' hdetail
  split at h
  · exact absurd h (by simp [raiseEnvelopeError])
  rename_i hend
  obtain rfl := Except.ok.inj h
  rw [not_not] at hend
  rw [← hend, readString_ok hdetail, readString_ok hpath]

/-- **Whatever is read out of a frame fits a frame.** -/
theorem fitsWire_of_decoded (bytes : List UInt8) :
    ∀ r ∈ (scan decodeRecordPayload bytes).1, FitsWire r := by
  refine scan_forall (fun p r hlen hdec => ?_) bytes
  rw [FitsWire, ← decodeRecordPayload_length hdec]
  exact hlen

/-! ## 3. The body -/

theorem flatMap_encodeFrame (rs : List MonitorRecord) :
    rs.flatMap encodeFrame = stream encodeRecordPayload rs := rfl

theorem encodeFrame_length (r : MonitorRecord) :
    (encodeFrame r).length = 72 + r.path.length + r.detail.length := by
  rw [encodeFrame, frame_length, encodeRecordPayload_length, RecordFixedHeaderLen]
  omega

theorem body_length_le {rs : List MonitorRecord} (h : ∀ r ∈ rs, FitsWire r) :
    (rs.flatMap encodeFrame).length ≤ rs.length * (2 ^ 32 + 4) := by
  induction rs with
  | nil => simp
  | cons r rs ih =>
    have hr := h r (List.mem_cons_self ..)
    have ih := ih fun s hs => h s (List.mem_cons_of_mem _ hs)
    rw [FitsWire, RecordFixedHeaderLen] at hr
    rw [List.flatMap_cons, List.length_append, encodeFrame_length, List.length_cons]
    omega

theorem length_le_body (rs : List MonitorRecord) :
    rs.length ≤ (rs.flatMap encodeFrame).length := by
  induction rs with
  | nil => simp
  | cons r rs ih =>
    rw [List.flatMap_cons, List.length_append, encodeFrame_length, List.length_cons]
    omega

theorem encodeCanonical_eq (rs : List MonitorRecord) :
    encodeCanonical rs = fileOf rs.length ((canonicalize rs).flatMap encodeFrame).length
      (checksum ((canonicalize rs).flatMap encodeFrame))
      ((canonicalize rs).flatMap encodeFrame) := by
  rw [encodeCanonical, fileOf, canonicalize_length]

theorem map_canonicalize_perm {β : Type} (f : MonitorRecord → β)
    (hf : ∀ r n, f { r with seq := n } = f r) (rs : List MonitorRecord) :
    ((canonicalize rs).map f).Perm (rs.map f) := by
  rw [canonicalize, map_renumber f hf]
  exact (List.perm_insertionSort _ rs).map f

theorem forall_fitsWire_canonicalize {rs : List MonitorRecord} :
    (∀ r ∈ canonicalize rs, FitsWire r) ↔ ∀ r ∈ rs, FitsWire r := by
  have hperm := map_canonicalize_perm (fun r => decide (FitsWire r)) (fun _ _ => rfl) rs
  have hall : ∀ rs : List MonitorRecord, (∀ r ∈ rs, FitsWire r) ↔
      ∀ b ∈ rs.map (fun r => decide (FitsWire r)), b = true := by
    intro rs
    simp only [List.mem_map, forall_exists_index, and_imp, forall_apply_eq_imp_iff₂,
      decide_eq_true_eq]
  rw [hall, hall]
  simp only [hperm.mem_iff]

/-! ## 4. The round trip -/

def depFileFromRecords (records : List MonitorRecord) : MonitorDepFile :=
  depFileFromOwnedRecords records

theorem maxObservationCount_default :
    defaultMonitorDepFileReaderOptions.maxObservationCount.toNat = 1000000000 := by decide

/-- A list within the limit whose records fit their frames makes a file within `int`. -/
theorem body_length_lt {rs : List MonitorRecord} (hfits : ∀ r ∈ rs, FitsWire r)
    (hcount : rs.length ≤ defaultMonitorDepFileReaderOptions.maxObservationCount.toNat) :
    44 + ((canonicalize rs).flatMap encodeFrame).length < 2 ^ 63 := by
  have hle := body_length_le (forall_fitsWire_canonicalize.mpr hfits)
  rw [canonicalize_length] at hle
  rw [maxObservationCount_default] at hcount
  omega

theorem decode_encodeCanonical {rs : List MonitorRecord}
    (hcount : rs.length ≤ defaultMonitorDepFileReaderOptions.maxObservationCount.toNat)
    (hfits : ∀ r ∈ rs, FitsWire r) :
    decodeMonitorDepFile defaultMonitorDepFileReaderOptions (encodeCanonical rs) =
      .ok (depFileFromRecords (canonicalize rs)) := by
  have hbody := body_length_lt hfits hcount
  have hscan := scan_stream (canonicalize rs)
    (fun r hr => framable (forall_fitsWire_canonicalize.mpr hfits r hr)) []
  rw [List.append_nil, scan_nil, List.append_nil] at hscan
  have hsmall : rs.length < 2 ^ 64 := by
    rw [maxObservationCount_default] at hcount
    omega
  rw [decodeMonitorDepFile_ok_iff]
  refine ⟨rs.length, ((canonicalize rs).flatMap encodeFrame).length, canonicalize rs, ?_, ?_, ?_,
    ?_, rfl⟩
  · rw [encodeCanonical_eq]
    exact envelopeOk_file hcount hbody
  · rw [encodeCanonical_eq, fileOf_body, flatMap_encodeFrame]
    exact hscan
  · rw [canonicalize_length, Nat.mod_eq_of_lt hsmall]
  · rw [canonicalize_eq]
    exact numberedFrom_renumber _

/-- **The canonical round trip.**  A list within the reader's limit whose records each fit a
32-bit frame reads back as its canonical form; both writers write the same bytes, and writing
what was read reproduces them. -/
theorem canonical_round_trip (rs : List MonitorRecord)
    (hcount : rs.length ≤ defaultMonitorDepFileReaderOptions.maxObservationCount.toNat)
    (hfits : ∀ r ∈ rs, FitsWire r) :
    ∃ d, decodeMonitorDepFile defaultMonitorDepFileReaderOptions (encodeCanonical rs) = .ok d ∧
      d = depFileFromRecords (canonicalize rs) ∧
      writeCanonicalInPlace rs = encodeCanonical rs ∧
      encodeCanonical d.records = encodeCanonical rs := by
  refine ⟨_, decode_encodeCanonical hcount hfits, rfl, writeCanonicalInPlace_eq rs, ?_⟩
  have hsmall : rs.length < 2 ^ 64 := by
    rw [maxObservationCount_default] at hcount
    omega
  show encodeCanonical (canonicalize rs) = encodeCanonical rs
  rw [encodeCanonical, encodeCanonical, canonicalize_canonicalize hsmall]

/-- A read of one file. -/
def hostsRead : MonitorRecord where
  kind := .mrFileRead
  observationKind := .moFileRead
  path := str "/etc/hosts"

/-- A process that reads the file and writes another one, and its child. -/
def hostsRun : List MonitorRecord :=
  [{ hostsRead with osPid := 8, threadId := 8, seq := 2 },
   { kind := .mrFileWrite, observationKind := .moFileWrite, osPid := 8, threadId := 8, seq := 3
     path := str "/tmp/out" },
   { kind := .mrProcessStart, observationKind := .moExecute, osPid := 9, parentOsPid := 8 },
   { kind := .mrProcessStart, observationKind := .moExecute, osPid := 8, threadId := 8, seq := 1 }]

/-- The four records come back renumbered, one process after the other. -/
theorem canonical_round_trip_hostsRun :
    ∃ d, decodeMonitorDepFile defaultMonitorDepFileReaderOptions (encodeCanonical hostsRun) =
        .ok d ∧
      d.records.map (fun r => (r.osPid, r.kind, r.seq)) =
        [(8, .mrProcessStart, 1), (8, .mrFileRead, 2), (8, .mrFileWrite, 3),
         (9, .mrProcessStart, 4)] ∧
      writeCanonicalInPlace hostsRun = encodeCanonical hostsRun ∧
      encodeCanonical d.records = encodeCanonical hostsRun := by
  obtain ⟨d, hread, rfl, hwrite, hagain⟩ := canonical_round_trip hostsRun (by decide) (by decide)
  exact ⟨_, hread, by decide, hwrite, hagain⟩

/-- A written file that is accepted at all holds no more records than the limit. -/
theorem length_le_of_decoded {rs : List MonitorRecord} {d : MonitorDepFile}
    (h : decodeMonitorDepFile defaultMonitorDepFileReaderOptions (encodeCanonical rs) = .ok d) :
    rs.length ≤ defaultMonitorDepFileReaderOptions.maxObservationCount.toNat := by
  obtain ⟨c, l, _, henv, _⟩ := decodeMonitorDepFile_ok_iff.mp h
  have hlength := henv.length
  have hcount := henv.count
  rw [encodeCanonical_eq] at hlength hcount
  rw [fileOf_length] at hlength
  rw [fileOf_count] at hcount
  have hle := length_le_body (canonicalize rs)
  rw [canonicalize_length] at hle
  have hfits := henv.fits
  have hlimit := henv.limit
  rw [Nat.mod_eq_of_lt (by omega)] at hcount
  omega

/-- The records of a depfile that was read fit their frames. -/
theorem fitsWire_of_read {options : MonitorDepFileReaderOptions} {bytes : List UInt8}
    {d : MonitorDepFile} (h : decodeMonitorDepFile options bytes = .ok d) :
    ∀ r ∈ d.records, FitsWire r := by
  obtain ⟨_, l, rs, _, hscan, _, _, rfl⟩ := decodeMonitorDepFile_ok_iff.mp h
  intro r hr
  refine fitsWire_of_decoded (bodyOf bytes l) r ?_
  rw [hscan]
  exact hr

/-- **The condition is exact**: a file reads back as the canonical form of its records only if
each of them fits its frame and there are not too many. -/
theorem decode_encodeCanonical_iff {rs : List MonitorRecord} :
    decodeMonitorDepFile defaultMonitorDepFileReaderOptions (encodeCanonical rs) =
        .ok (depFileFromRecords (canonicalize rs)) ↔
      rs.length ≤ defaultMonitorDepFileReaderOptions.maxObservationCount.toNat ∧
        ∀ r ∈ rs, FitsWire r := by
  refine ⟨fun h => ⟨length_le_of_decoded h, ?_⟩, fun h => decode_encodeCanonical h.1 h.2⟩
  exact forall_fitsWire_canonicalize.mp (fitsWire_of_read h)

/-- A read of a path of 2^32 - 1 bytes, the longest its length prefix can express. -/
def longestRead : MonitorRecord where
  kind := .mrFileRead
  observationKind := .moFileRead
  path := List.replicate (2 ^ 32 - 1) 47

/-- **Short strings are not enough**: this record's path is shorter than 2^32 bytes and its
detail is empty, and its file does not read back. -/
theorem longestRead_does_not_round_trip :
    (longestRead.path.length < 2 ^ 32 ∧ longestRead.detail.length < 2 ^ 32) ∧
      decodeMonitorDepFile defaultMonitorDepFileReaderOptions (encodeCanonical [longestRead]) ≠
        .ok (depFileFromRecords (canonicalize [longestRead])) := by
  have hpath : longestRead.path.length = 2 ^ 32 - 1 := List.length_replicate
  have hdetail : longestRead.detail.length = 0 := rfl
  refine ⟨⟨by omega, by omega⟩, fun h => ?_⟩
  have hfit := (decode_encodeCanonical_iff.mp h).2 longestRead (List.mem_singleton.mpr rfl)
  rw [FitsWire, RecordFixedHeaderLen, hpath, hdetail] at hfit
  omega

/-! ## 5. Fragments cut anywhere

A fragment file is the concatenation of frames, and a kill may cut it at any byte. -/

/-- What reading the fragment of `rs` cut at `cut` has to give: the records whose frames lie
wholly before the cut, in order, and a clean end exactly at a frame boundary. -/
def CutReadsBack (rs : List MonitorRecord) (cut : Nat) : Prop :=
  (decodeFramesTolerant ((rs.flatMap encodeFrame).take cut)).1 =
      wholeBefore encodeRecordPayload cut 0 rs ∧
    ((decodeFramesTolerant ((rs.flatMap encodeFrame).take cut)).2 = true ↔
      FrameBoundary encodeRecordPayload rs cut)

/-- At the end of the log every record is whole. -/
theorem wholeBefore_end {rs : List MonitorRecord} {start cut : Nat}
    (h : start + (rs.flatMap encodeFrame).length ≤ cut) :
    wholeBefore encodeRecordPayload cut start rs = rs := by
  induction rs generalizing start with
  | nil => rfl
  | cons r rs ih =>
    rw [List.flatMap_cons, List.length_append, encodeFrame] at h
    rw [wholeBefore, if_pos (by omega), ih (by omega)]

/-- A fragment reads back whatever the cut exactly when each of its payloads has a length the
32-bit prefix can express. -/
theorem cutReadsBack_iff (rs : List MonitorRecord) :
    (∀ cut ≤ (rs.flatMap encodeFrame).length, CutReadsBack rs cut) ↔ ∀ r ∈ rs, FitsWire r := by
  constructor
  · intro h
    have hwhole := (h _ (Nat.le_refl _)).1
    rw [wholeBefore_end (Nat.le_of_eq (Nat.zero_add _))] at hwhole
    have hfits := fitsWire_of_decoded
      ((rs.flatMap encodeFrame).take (rs.flatMap encodeFrame).length)
    rw [← decodeFramesTolerant, hwhole] at hfits
    exact hfits
  · intro h cut hcut
    exact scan_take_stream rs (fun r hr => framable (h r hr)) cut hcut

/-- **Tolerant decoding.**  The fragment of a list of records, cut anywhere, reads back as the
records before the cut if and only if every payload is shorter than 2^32 bytes; and on every
buffer the strict decoder succeeds exactly where the tolerant one reports a clean end. -/
theorem tolerant_decoding :
    (∀ rs : List MonitorRecord,
      (∀ cut ≤ (rs.flatMap encodeFrame).length, CutReadsBack rs cut) ↔ ∀ r ∈ rs, FitsWire r) ∧
    ∀ (bytes : List UInt8) (rs : List MonitorRecord),
      decodeFrames bytes = .ok rs ↔ decodeFramesTolerant bytes = (rs, true) :=
  ⟨cutReadsBack_iff, fun _ _ => decodeFrames_ok_iff⟩

/-- The record whose path has 2^32 - 1 bytes is not read back from its own whole frame. -/
theorem longestRead_not_readBack :
    ¬ CutReadsBack [longestRead] ([longestRead].flatMap encodeFrame).length := by
  rintro ⟨hwhole, -⟩
  rw [wholeBefore_end (Nat.le_of_eq (Nat.zero_add _))] at hwhole
  have hfits := fitsWire_of_decoded
    (([longestRead].flatMap encodeFrame).take ([longestRead].flatMap encodeFrame).length)
  rw [← decodeFramesTolerant, hwhole] at hfits
  have hfit := hfits longestRead (List.mem_singleton.mpr rfl)
  have hpath : longestRead.path.length = 2 ^ 32 - 1 := List.length_replicate
  have hdetail : longestRead.detail.length = 0 := rfl
  rw [FitsWire, RecordFixedHeaderLen, hpath, hdetail] at hfit
  omega

end IoMon
