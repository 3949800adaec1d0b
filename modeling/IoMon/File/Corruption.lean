/-
# Damage to a canonical file

What `decodeMonitorDepFile` notices about a file that was written whole and then damaged: a cut,
bytes added at the end, one byte replaced.  The length field pins the file length, the two counts
pin each other, the FNV-1a step is injective in state and byte, so a single replaced body byte
always changes the checksum.  Two header bytes are read and thrown away: the file kind.

  * `fileOf_set_refused` -- a replaced byte, position by position;
  * `corruption_detected` -- cuts, additions and replacements together, with the two positions
    that are not compared.
-/
import IoMon.File.Totality
import IoMon.File.RoundTrip

namespace IoMon

open ByteText ByteCodec

/-! ## 1. Slices of a damaged buffer -/

section Slices

variable {bytes : List UInt8} {off k : Nat}

theorem loadLe_take {n : Nat} (h : off + k ≤ n) :
    loadLe (bytes.take n) off k = loadLe bytes off k := by
  rw [loadLe, loadLe, List.drop_take, List.take_take, Nat.min_eq_left (by omega)]

theorem loadLe_append_left (h : off + k ≤ bytes.length) (rest : List UInt8) :
    loadLe (bytes ++ rest) off k = loadLe bytes off k := by
  have hprefix : (bytes ++ rest).take bytes.length = bytes := List.take_left
  rw [← loadLe_take h, hprefix]

theorem slice_set {i : Nat} (b : UInt8) (hi : off ≤ i) :
    ((bytes.set i b).drop off).take k = ((bytes.drop off).take k).set (i - off) b := by
  rw [List.drop_set, if_neg (by omega), List.take_set]

theorem slice_set_outside {i : Nat} (b : UInt8) (h : i < off ∨ off + k ≤ i) :
    ((bytes.set i b).drop off).take k = (bytes.drop off).take k := by
  rcases h with h | h
  · rw [List.drop_set_of_lt h]
  · rw [slice_set b (by omega), List.set_eq_of_length_le]
    rw [List.length_take]
    omega

/-- A replaced byte inside a slice changes it. -/
theorem slice_set_ne (off k : Nat) {i : Nat} {b : UInt8} (h : off ≤ i ∧ i < off + k)
    (hi : i < bytes.length) (hb : b ≠ bytes[i]) :
    ((bytes.set i b).drop off).take k ≠ (bytes.drop off).take k := by
  intro heq
  have hlen : i - off < ((bytes.drop off).take k).length := by
    rw [List.length_take, List.length_drop]
    omega
  have hget := congrArg (·[i - off]?) heq
  rw [slice_set b h.1, List.getElem?_set_self hlen, List.getElem?_take_of_lt (by omega),
    List.getElem?_drop, show off + (i - off) = i by omega, List.getElem?_eq_getElem hi] at hget
  exact hb (Option.some.inj hget)

theorem loadLe_set_outside {i : Nat} (b : UInt8) (h : i < off ∨ off + k ≤ i) :
    loadLe (bytes.set i b) off k = loadLe bytes off k := by
  rw [loadLe, loadLe, slice_set_outside b h]

theorem loadLe_set_ne (off k : Nat) {i : Nat} {b : UInt8} (h : off ≤ i ∧ i < off + k)
    (hi : i < bytes.length) (hb : b ≠ bytes[i]) :
    loadLe (bytes.set i b) off k ≠ loadLe bytes off k := by
  intro heq
  refine slice_set_ne off k h hi hb (leNat_injective ?_ heq)
  simp only [List.length_take, List.length_drop, List.length_set]

end Slices

/-! ## 2. Refusals -/

/-- The reader does not return a depfile. -/
def Refused (bytes : List UInt8) : Prop :=
  ∃ e, decodeMonitorDepFile defaultMonitorDepFileReaderOptions bytes = .error e

/-- The reader raises its own error. -/
def RefusedByReader (bytes : List UInt8) : Prop :=
  ∃ kind message, decodeMonitorDepFile defaultMonitorDepFileReaderOptions bytes =
    .error (.readerError kind message)

theorem refused_of_no_envelope {bytes : List UInt8}
    (h : ∀ count bodyLen, ¬ EnvelopeOk defaultMonitorDepFileReaderOptions bytes count bodyLen) :
    Refused bytes := by
  cases hdec : decodeMonitorDepFile defaultMonitorDepFileReaderOptions bytes with
  | error e => exact ⟨e, hdec⟩
  | ok d =>
    obtain ⟨count, bodyLen, _, henv, _⟩ := decodeMonitorDepFile_ok_iff.mp hdec
    exact absurd henv (h count bodyLen)

theorem Refused.byReader {bytes : List UInt8} (h : Refused bytes)
    (htotal : ¬ LengthFieldOverflows defaultMonitorDepFileReaderOptions bytes) :
    RefusedByReader bytes := by
  obtain ⟨e, he⟩ := h
  have hreader := decodeMonitorDepFile_total_iff.mpr htotal e he
  cases e with
  | readerError kind message => exact ⟨kind, message, he⟩
  | envelopeError _ => exact absurd hreader Bool.false_ne_true
  | rangeDefect => exact absurd hreader Bool.false_ne_true
  | overflowDefect => exact absurd hreader Bool.false_ne_true
  | indexDefect => exact absurd hreader Bool.false_ne_true

/-- While the length field is that of a file within `int`, nothing overflows. -/
theorem not_overflows {bytes : List UInt8} {n : Nat}
    (hfield : 44 ≤ bytes.length → loadLe bytes 16 8 = n) (hn : 44 + n < 2 ^ 63) :
    ¬ LengthFieldOverflows defaultMonitorDepFileReaderOptions bytes := by
  rintro ⟨hlong, _, _, h | ⟨_, h⟩⟩
  · have := hfield hlong
    omega
  · have := hfield hlong
    omega

/-! ## 3. One written file -/

section OneFile

variable {count : Nat} {body : List UInt8}

/-- The file of this body, with the length and the checksum the writers put in. -/
def writtenFile (count : Nat) (body : List UInt8) : List UInt8 :=
  fileOf count body.length (checksum body) body

theorem writtenFile_length : (writtenFile count body).length = 44 + body.length :=
  fileOf_length ..

theorem writtenFile_bodyLen (hint : 44 + body.length < 2 ^ 63) :
    loadLe (writtenFile count body) 16 8 = body.length := by
  rw [writtenFile, fileOf_bodyLen, Nat.mod_eq_of_lt (by omega)]

/-- A cut file is refused. -/
theorem writtenFile_take_refused (hint : 44 + body.length < 2 ^ 63) {n : Nat}
    (hn : n < (writtenFile count body).length) :
    RefusedByReader ((writtenFile count body).take n) := by
  rw [writtenFile_length] at hn
  have hlen : ((writtenFile count body).take n).length = n := by
    rw [List.length_take, writtenFile_length]
    omega
  have hfield : 44 ≤ ((writtenFile count body).take n).length →
      loadLe ((writtenFile count body).take n) 16 8 = body.length := by
    intro h
    rw [loadLe_take (by omega), writtenFile_bodyLen hint]
  refine (refused_of_no_envelope fun c l henv => ?_).byReader (not_overflows hfield hint)
  have hl := henv.lengthField
  have hfile := henv.length
  rw [hfield henv.long] at hl
  omega

/-- Bytes added at the end are refused. -/
theorem writtenFile_append_refused (hint : 44 + body.length < 2 ^ 63) {suffix : List UInt8}
    (hne : suffix ≠ []) : RefusedByReader (writtenFile count body ++ suffix) := by
  have hpos : 0 < suffix.length := List.length_pos_iff.mpr hne
  have hfield : loadLe (writtenFile count body ++ suffix) 16 8 = body.length := by
    rw [loadLe_append_left (by rw [writtenFile_length]; omega), writtenFile_bodyLen hint]
  refine (refused_of_no_envelope fun c l henv => ?_).byReader (not_overflows (fun _ => hfield) hint)
  have hl := henv.lengthField
  have hfile := henv.length
  rw [hfield] at hl
  rw [List.length_append, writtenFile_length] at hfile
  omega

/-- A replaced body byte changes the checksum. -/
theorem checksum_set_ne {i : Nat} (hi : i < body.length) {b : UInt8} (hb : b ≠ body[i]) :
    (checksum (body.set i b)).toNat ≠ (checksum body).toNat := by
  intro heq
  exact checksumStep_faithful.foldl_set_ne FnvOffset hi hb (UInt64.toNat_inj.mp heq)

/-- **No envelope survives a replaced byte**, unless the byte is one of the two of the file
kind. -/
theorem writtenFile_set_no_envelope (hint : 44 + body.length < 2 ^ 63) {i : Nat} {b : UInt8}
    (hi : i < (writtenFile count body).length) (hb : b ≠ (writtenFile count body)[i])
    (h6 : i ≠ 6) (h7 : i ≠ 7) (c l : Nat) :
    ¬ EnvelopeOk defaultMonitorDepFileReaderOptions ((writtenFile count body).set i b) c l := by
  intro henv
  have hlen : (writtenFile count body).length = 44 + body.length := writtenFile_length
  have hfile := henv.length
  rw [List.length_set, hlen] at hfile
  obtain rfl : l = body.length := by omega
  rw [hlen] at hi
  by_cases hmagic : i < 4
  · refine slice_set_ne 0 4 (by omega) (by omega) hb ?_
    rw [List.drop_zero, List.drop_zero, henv.magic, writtenFile, fileOf_magic]
  by_cases hversion : i < 6
  · refine loadLe_set_ne 4 2 (by omega) (by omega) hb ?_
    rw [henv.version, writtenFile, fileOf_version]
  by_cases hcount : i < 16
  · -- the count in the trailer is still the one that was written
    refine loadLe_set_ne 8 8 (by omega) (by omega) hb ?_
    rw [henv.count, ← henv.trailerCount, loadLe_set_outside b (by omega), writtenFile,
      fileOf_trailerCount, fileOf_count]
  by_cases hbodyLen : i < 24
  · refine loadLe_set_ne 16 8 (by omega) (by omega) hb ?_
    rw [henv.lengthField, writtenFile_bodyLen hint]
  by_cases hbody : i < 24 + body.length
  · have hbyte : (writtenFile count body)[i]? = body[i - 24]? := by
      have hdrop := congrArg (·[i - 24]?)
        (fileOf_drop_header count body.length (checksum body) body)
      rw [List.getElem?_drop, show 24 + (i - 24) = i by omega,
        List.getElem?_append_left (by omega)] at hdrop
      exact hdrop
    have hb' : b ≠ body[i - 24] := by
      rw [List.getElem?_eq_getElem (by omega), List.getElem?_eq_getElem (by omega)] at hbyte
      rwa [Option.some.inj hbyte] at hb
    refine checksum_set_ne (by omega) hb' ?_
    have hsum := henv.trailerChecksum rfl
    rw [loadLe_set_outside b (by omega), bodyOf, slice_set b (by omega), ← bodyOf, writtenFile,
      fileOf_trailerChecksum, fileOf_body] at hsum
    exact hsum.symm
  by_cases htrailer : i < 28 + body.length
  · refine slice_set_ne (24 + body.length) 4 (by omega) (by omega) hb ?_
    rw [henv.trailerMagic, writtenFile, fileOf_trailerMagic]
  by_cases htcount : i < 36 + body.length
  · refine loadLe_set_ne (28 + body.length) 8 (by omega) (by omega) hb ?_
    rw [henv.trailerCount, ← henv.count, loadLe_set_outside b (by omega), writtenFile,
      fileOf_trailerCount, fileOf_count]
  · refine loadLe_set_ne (36 + body.length) 8 (by omega) (by omega) hb ?_
    rw [henv.trailerChecksum rfl, bodyOf, slice_set_outside b (by omega), ← bodyOf, writtenFile,
      fileOf_trailerChecksum, fileOf_body]

theorem writtenFile_set_refused (hint : 44 + body.length < 2 ^ 63) {i : Nat} {b : UInt8}
    (hi : i < (writtenFile count body).length) (hb : b ≠ (writtenFile count body)[i])
    (h6 : i ≠ 6) (h7 : i ≠ 7) : Refused ((writtenFile count body).set i b) :=
  refused_of_no_envelope (writtenFile_set_no_envelope hint hi hb h6 h7)

end OneFile

/-- **The file kind is read and thrown away**: whatever stands there, the result is the same. -/
theorem decode_set_fileKind (options : MonitorDepFileReaderOptions) (bytes : List UInt8) {i : Nat}
    (hi : i = 6 ∨ i = 7) (b : UInt8) :
    decodeMonitorDepFile options (bytes.set i b) = decodeMonitorDepFile options bytes := by
  have hslice : ∀ off k, 24 ≤ off → ((bytes.set i b).drop off).take k = (bytes.drop off).take k :=
    fun off k h => slice_set_outside b (by omega)
  have hmagic : (bytes.set i b).take 4 = bytes.take 4 := by
    have hfront : ((bytes.set i b).drop 0).take 4 = (bytes.drop 0).take 4 :=
      slice_set_outside b (by omega)
    rwa [List.drop_zero, List.drop_zero] at hfront
  have hcheck : checkEnvelope options (bytes.set i b) = checkEnvelope options bytes := by
    unfold checkEnvelope
    rw [List.length_set, hmagic, loadLe_set_outside b (by omega), loadLe_set_outside b (by omega),
      loadLe_set_outside b (by omega)]
    refine bind_congr_ok fun _ _ => bind_congr_ok fun _ _ => bind_congr_ok fun _ _ =>
      bind_congr_ok fun bodyLen _ => bind_congr_ok fun _ _ => bind_congr_ok fun bodyEnd hend => ?_
    obtain ⟨_, rfl⟩ := addInt_ok_iff.mp hend
    rw [hslice _ _ (by omega), loadLe_set_outside b (by omega), loadLe_set_outside b (by omega),
      bodyOf, hslice _ _ (by omega)]
    rfl
  rw [decodeMonitorDepFile_eq, decodeMonitorDepFile_eq, hcheck]
  refine bind_congr_ok fun fields _ => ?_
  obtain ⟨count, bodyLen⟩ := fields
  show decodeBody count (bodyOf (bytes.set i b) bodyLen) = decodeBody count (bodyOf bytes bodyLen)
  rw [bodyOf, hslice _ _ (by omega), ← bodyOf]

/-! ## 4. Damage to what was written -/

/-- **Corruption detection.**  Of a file that fits Nim's `int`, every strict prefix, every
extension and every replacement of one byte is refused, with the exception of the file kind at
positions 6 and 7, which is not compared.  The refusal is the reader's own error except possibly
for a replaced byte of the body length at positions 16 to 23. -/
theorem corruption_detected (rs : List MonitorRecord)
    (hint : (encodeCanonical rs).length < 2 ^ 63) :
    (∀ n < (encodeCanonical rs).length, RefusedByReader ((encodeCanonical rs).take n)) ∧
      (∀ suffix, suffix ≠ [] → RefusedByReader (encodeCanonical rs ++ suffix)) ∧
      (∀ i b, (hi : i < (encodeCanonical rs).length) → b ≠ (encodeCanonical rs)[i] →
        i ≠ 6 → i ≠ 7 → Refused ((encodeCanonical rs).set i b) ∧
          (i < 16 ∨ 24 ≤ i → RefusedByReader ((encodeCanonical rs).set i b))) ∧
      ∀ i b, i = 6 ∨ i = 7 →
        decodeMonitorDepFile defaultMonitorDepFileReaderOptions ((encodeCanonical rs).set i b) =
          decodeMonitorDepFile defaultMonitorDepFileReaderOptions (encodeCanonical rs) := by
  have hfile : encodeCanonical rs =
      writtenFile rs.length ((canonicalize rs).flatMap encodeFrame) := encodeCanonical_eq rs
  have hbody : 44 + ((canonicalize rs).flatMap encodeFrame).length < 2 ^ 63 := by
    rwa [hfile, writtenFile_length] at hint
  refine ⟨?_, ?_, ?_, fun i b hi => decode_set_fileKind _ _ hi b⟩
  · intro n hn
    rw [hfile] at hn ⊢
    exact writtenFile_take_refused hbody hn
  · intro suffix hne
    rw [hfile]
    exact writtenFile_append_refused hbody hne
  · rw [hfile]
    intro i b hi hb h6 h7
    have hrefused := writtenFile_set_refused hbody hi hb h6 h7
    refine ⟨hrefused, fun hpos => hrefused.byReader (not_overflows (fun _ => ?_) hbody)⟩
    rw [loadLe_set_outside b (by omega), writtenFile_bodyLen hbody]

/-- The file of the four records cut in its second frame, extended by a byte, changed in a frame
and in its file kind. -/
theorem corruption_detected_hostsRun :
    RefusedByReader ((encodeCanonical hostsRun).take 150) ∧
      RefusedByReader (encodeCanonical hostsRun ++ [0]) ∧
      RefusedByReader ((encodeCanonical hostsRun).set 100 7) ∧
      decodeMonitorDepFile defaultMonitorDepFileReaderOptions ((encodeCanonical hostsRun).set 6 9) =
        decodeMonitorDepFile defaultMonitorDepFileReaderOptions (encodeCanonical hostsRun) := by
  obtain ⟨hcut, hextended, hchanged, hkind⟩ :=
    corruption_detected hostsRun (by decide +kernel)
  exact ⟨hcut 150 (by decide +kernel), hextended [0] (by decide),
    (hchanged 100 7 (by decide +kernel) (by decide +kernel) (by decide) (by decide)).2
      (.inr (by decide)),
    hkind 6 9 (.inl rfl)⟩

end IoMon
