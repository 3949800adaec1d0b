/-
# Records on the wire: the fragment frame and the summary of a record list

`encode.nim` writes a record as a 60-byte little-endian header followed by the path and the
detail, each with a 32-bit length in front; a fragment file is a sequence of such payloads,
each framed by its own 32-bit length.  `decodeFramesTolerant` is what the merge reads a fragment
with: it keeps every record before the first damage and reports whether it reached the end.

The record decoder is used through `decode_encodeRecordPayload`, the file reader through
`decodeFramesTolerant_stream` and the library's torn-log theorem.
-/
import Mathlib.Data.List.Sort
import IoMon.Lib.Frames
import IoMon.Types

namespace IoMon

open ByteText ByteCodec MonitorRecordKind MonitorObservationKind ProbeResult

/-! ## 1. Errors -/

inductive EnvelopeErrorKind
  | eeMalformed | eeUnknownMagic | eeUnsupportedVersion | eeUnknownType
  deriving DecidableEq, Repr

structure EnvelopeError where
  kind : EnvelopeErrorKind
  message : NimStr
  deriving DecidableEq, Repr

def raiseEnvelopeError {α : Type} (kind : EnvelopeErrorKind) (message : String) :
    Except EnvelopeError α := .error ⟨kind, str message⟩

/-! ## 2. The fixed header

The same 60 bytes open a fragment payload and a shared-set element. -/

def RecordFixedHeaderLen : Nat := 60

/-- `storeRecordFixedHeader`: the ten fixed-width fields in wire order. -/
def storeRecordFixedHeader (r : MonitorRecord) : List UInt8 :=
  leBytes 2 r.kind.ord ++ (leBytes 2 r.observationKind.ord ++ (leBytes 8 r.seq.toNat ++
    (leBytes 8 r.osPid.toNat ++ (leBytes 8 r.parentOsPid.toNat ++ (leBytes 8 r.threadId.toNat ++
    (leBytes 8 r.childOsPid.toNat ++ (leBytes 8 r.result.toUInt64.toNat ++
    (leBytes 4 r.flags.toNat ++ leBytes 4 r.probeResult.ord))))))))

/-- The fields at their offsets, once the three ordinals have passed their range checks. -/
def loadRecordFixedHeader (bytes : List UInt8) (kind : MonitorRecordKind)
    (observationKind : MonitorObservationKind) (probeResult : ProbeResult) : MonitorRecord where
  kind := kind
  observationKind := observationKind
  seq := UInt64.ofNat (loadLe bytes 4 8)
  osPid := UInt64.ofNat (loadLe bytes 12 8)
  parentOsPid := UInt64.ofNat (loadLe bytes 20 8)
  threadId := UInt64.ofNat (loadLe bytes 28 8)
  childOsPid := UInt64.ofNat (loadLe bytes 36 8)
  result := (UInt64.ofNat (loadLe bytes 44 8)).toInt64
  flags := UInt32.ofNat (loadLe bytes 52 4)
  probeResult := probeResult

@[simp] theorem storeRecordFixedHeader_length (r : MonitorRecord) :
    (storeRecordFixedHeader r).length = RecordFixedHeaderLen := by
  simp only [storeRecordFixedHeader, List.length_append, leBytes_length, RecordFixedHeaderLen]

theorem u64_lt_pow (n : UInt64) : n.toNat < 256 ^ 8 := n.toNat_lt

theorem u32_lt_pow (n : UInt32) : n.toNat < 256 ^ 4 := n.toNat_lt

section HeaderFields

variable (r : MonitorRecord) (rest : List UInt8)

/-- The kind ordinal reads back. -/
theorem loadLe_kind : loadLe (storeRecordFixedHeader r ++ rest) 0 2 = r.kind.ord := by
  simp only [storeRecordFixedHeader, List.append_assoc]
  exact loadLe_zero r.kind.ord_lt _

theorem loadLe_observationKind :
    loadLe (storeRecordFixedHeader r ++ rest) 2 2 = r.observationKind.ord := by
  simp only [storeRecordFixedHeader, List.append_assoc]
  rw [loadLe_skip (by omega)]
  exact loadLe_zero r.observationKind.ord_lt _

theorem loadLe_probeResult :
    loadLe (storeRecordFixedHeader r ++ rest) 56 4 = r.probeResult.ord := by
  simp only [storeRecordFixedHeader, List.append_assoc]
  simp (disch := omega) only [loadLe_skip, Nat.reduceSub]
  exact loadLe_zero r.probeResult.ord_lt _

/-- **The header reads back**: every field at its offset is the field that was stored. -/
theorem loadRecordFixedHeader_store :
    loadRecordFixedHeader (storeRecordFixedHeader r ++ rest) r.kind r.observationKind
      r.probeResult = { r with path := [], detail := [] } := by
  simp only [loadRecordFixedHeader, storeRecordFixedHeader, List.append_assoc]
  have h8 : ∀ n : UInt64, n.toNat < 256 ^ 8 := u64_lt_pow
  have h4 : ∀ n : UInt32, n.toNat < 256 ^ 4 := u32_lt_pow
  simp (disch := omega) only [loadLe_skip, Nat.reduceSub, loadLe_zero (h8 _), loadLe_zero (h4 _),
    UInt64.ofNat_toNat, UInt32.ofNat_toNat]
  cases r
  rfl

end HeaderFields

/-! ## 3. The payload -/

/-- `writeString`: the length, cast to 32 bits, and the bytes. -/
def writeString (value : NimStr) : List UInt8 := leBytes 4 value.length ++ value

def readU32Le (bytes : List UInt8) (pos : Nat) : Except EnvelopeError (Nat × Nat) :=
  if pos + 4 > bytes.length then raiseEnvelopeError .eeMalformed "truncated uint32"
  else .ok (loadLe bytes pos 4, pos + 4)

def readString (bytes : List UInt8) (pos : Nat) : Except EnvelopeError (NimStr × Nat) :=
  match readU32Le bytes pos with
  | .error e => .error e
  | .ok (length, pos) =>
    if pos + length > bytes.length then raiseEnvelopeError .eeMalformed "truncated string"
    else .ok ((bytes.drop pos).take length, pos + length)

def encodeRecordPayload (r : MonitorRecord) : List UInt8 :=
  storeRecordFixedHeader r ++ (writeString r.path ++ writeString r.detail)

/-- `decodeRecordPayload`, with its checks in the order the source makes them. -/
def decodeRecordPayload (payload : List UInt8) : Except EnvelopeError MonitorRecord :=
  if payload.length < RecordFixedHeaderLen then
    raiseEnvelopeError .eeMalformed "truncated iomon record header"
  else
    match MonitorRecordKind.ofOrd (loadLe payload 0 2) with
    | none => raiseEnvelopeError .eeUnknownType "unknown iomon record kind"
    | some kind =>
      match MonitorObservationKind.ofOrd (loadLe payload 2 2) with
      | none => raiseEnvelopeError .eeUnknownType "unknown iomon observation kind"
      | some observationKind =>
        match ProbeResult.ofOrd (loadLe payload 56 4) with
        | none => raiseEnvelopeError .eeUnknownType "unknown iomon probe result"
        | some probeResult =>
          match readString payload RecordFixedHeaderLen with
          | .error e => .error e
          | .ok (path, pos) =>
            match readString payload pos with
            | .error e => .error e
            | .ok (detail, pos) =>
              if pos ≠ payload.length then
                raiseEnvelopeError .eeMalformed "iomon record has trailing bytes"
              else
                .ok { loadRecordFixedHeader payload kind observationKind probeResult with
                      path := path, detail := detail }

/-- Both strings are shorter than the 32-bit length prefix can express. -/
def FitsWire (r : MonitorRecord) : Prop :=
  RecordFixedHeaderLen + 4 + r.path.length + 4 + r.detail.length < 256 ^ 4

instance (r : MonitorRecord) : Decidable (FitsWire r) := inferInstanceAs (Decidable (_ < _))

@[simp] theorem writeString_length (s : NimStr) : (writeString s).length = 4 + s.length := by
  simp only [writeString, List.length_append, leBytes_length]

theorem encodeRecordPayload_length (r : MonitorRecord) : (encodeRecordPayload r).length =
    RecordFixedHeaderLen + 4 + r.path.length + 4 + r.detail.length := by
  simp only [encodeRecordPayload, List.length_append, storeRecordFixedHeader_length,
    writeString_length]
  omega

/-- A string written behind a prefix is read back at the prefix's length. -/
theorem readString_write {s : NimStr} (h : s.length < 256 ^ 4) (pre rest : List UInt8) :
    readString (pre ++ (writeString s ++ rest)) pre.length =
      .ok (s, pre.length + 4 + s.length) := by
  have hload : loadLe (pre ++ (writeString s ++ rest)) pre.length 4 = s.length := by
    have := loadLe_append pre (writeString s ++ rest) 0 4
    rw [Nat.add_zero] at this
    rw [this, writeString, List.append_assoc, loadLe_zero h]
  have h4 : ¬ pre.length + 4 > (pre ++ (writeString s ++ rest)).length := by
    simp only [List.length_append, writeString_length]; omega
  have hfit : ¬ pre.length + 4 + s.length > (pre ++ (writeString s ++ rest)).length := by
    simp only [List.length_append, writeString_length]; omega
  have hdrop : (pre ++ (writeString s ++ rest)).drop (pre.length + 4) = s ++ rest := by
    rw [List.drop_append, List.drop_eq_nil_of_le (Nat.le_add_right _ _), List.nil_append,
      Nat.add_sub_cancel_left, writeString, List.append_assoc]
    exact List.drop_left' (leBytes_length 4 _)
  simp only [readString, readU32Le, if_neg h4, hload, if_neg hfit, hdrop, List.take_left]

/-- **The payload round trip.** -/
theorem decode_encodeRecordPayload {r : MonitorRecord} (h : FitsWire r) :
    decodeRecordPayload (encodeRecordPayload r) = .ok r := by
  have hlen := encodeRecordPayload_length r
  unfold FitsWire at h
  have hhdr : ¬ (encodeRecordPayload r).length < RecordFixedHeaderLen := by omega
  have hpath : readString (encodeRecordPayload r) RecordFixedHeaderLen =
      .ok (r.path, RecordFixedHeaderLen + 4 + r.path.length) := by
    have := readString_write (s := r.path) (by omega) (storeRecordFixedHeader r)
      (writeString r.detail)
    rwa [storeRecordFixedHeader_length] at this
  have hdetail : readString (encodeRecordPayload r) (RecordFixedHeaderLen + 4 + r.path.length) =
      .ok (r.detail, RecordFixedHeaderLen + 4 + r.path.length + 4 + r.detail.length) := by
    have := readString_write (s := r.detail) (by omega)
      (storeRecordFixedHeader r ++ writeString r.path) []
    simp only [List.length_append, storeRecordFixedHeader_length, writeString_length,
      List.append_nil, List.append_assoc] at this
    rw [encodeRecordPayload, ← Nat.add_assoc] at *
    exact this
  have hend : ¬ RecordFixedHeaderLen + 4 + r.path.length + 4 + r.detail.length ≠
      (encodeRecordPayload r).length := by omega
  unfold decodeRecordPayload
  rw [if_neg hhdr]
  simp only [encodeRecordPayload, loadLe_kind, loadLe_observationKind, loadLe_probeResult,
    MonitorRecordKind.ofOrd_ord, MonitorObservationKind.ofOrd_ord, ProbeResult.ofOrd_ord,
    loadRecordFixedHeader_store]
  simp only [← encodeRecordPayload.eq_1, hpath, hdetail, if_neg hend]

/-! ## 4. Fragment files -/

/-- `encodeFrame`. -/
def encodeFrame (r : MonitorRecord) : List UInt8 := frame (encodeRecordPayload r)

/-- `decodeFramesTolerant`: the records before the first damage, and whether there was none. -/
def decodeFramesTolerant (bytes : List UInt8) : List MonitorRecord × Bool :=
  scan decodeRecordPayload bytes

theorem framable {r : MonitorRecord} (h : FitsWire r) :
    Framable decodeRecordPayload encodeRecordPayload r := by
  refine ⟨?_, ?_, decode_encodeRecordPayload h⟩
  · rw [encodeRecordPayload_length, RecordFixedHeaderLen]; omega
  · rw [encodeRecordPayload_length]; exact h

/-- A file of frames reads back, whatever follows. -/
theorem decodeFramesTolerant_stream {rs : List MonitorRecord} (h : ∀ r ∈ rs, FitsWire r)
    (rest : List UInt8) :
    decodeFramesTolerant (stream encodeRecordPayload rs ++ rest) =
      (rs ++ (decodeFramesTolerant rest).1, (decodeFramesTolerant rest).2) :=
  scan_stream rs (fun r hr => framable (h r hr)) rest

end IoMon
