/-
# Three encoders of one frame

`encodeFrame` builds a frame as a string.  A producer thread may not allocate on every record, so
`appendFragmentRecord` stores the same bytes straight into its batch buffer; and a signal handler
may not allocate at all, so the slot carries a committed marker that was stored when it was opened.
Both are written out field by field here, with their own length arithmetic.

`inlineEncode_eq` and `precompute_eq` reduce them to stores of the bytes of `encodeFrame`;
whether those fit is then `FixedBuffer`'s question.
-/
import IoMon.Lib.FixedBuffer
import IoMon.Writer.Slot

namespace IoMon

open ByteText ByteCodec FixedBuffer MonitorRecordKind MonitorObservationKind

/-! ## 1. Stores -/

section Stores

variable {n : Nat}

/-- `byte((v shr shift) and 0xFF)`. -/
def byteAt (v shift : Nat) : UInt8 := UInt8.ofNat ((v >>> shift) &&& 0xFF)

def putU16Le (v : Nat) (c : Cursor n) : Option (Cursor n) := do
  let c ← putByte (byteAt v 0) c
  putByte (byteAt v 8) c

def putU32Le (v : Nat) (c : Cursor n) : Option (Cursor n) := do
  let c ← putByte (byteAt v 0) c
  let c ← putByte (byteAt v 8) c
  let c ← putByte (byteAt v 16) c
  putByte (byteAt v 24) c

def putU64Le (v : Nat) (c : Cursor n) : Option (Cursor n) := do
  let c ← putByte (byteAt v 0) c
  let c ← putByte (byteAt v 8) c
  let c ← putByte (byteAt v 16) c
  let c ← putByte (byteAt v 24) c
  let c ← putByte (byteAt v 32) c
  let c ← putByte (byteAt v 40) c
  let c ← putByte (byteAt v 48) c
  putByte (byteAt v 56) c

/-- `copyMem` to the cursor. -/
def copyMem (bytes : List UInt8) (c : Cursor n) : Option (Cursor n) := putAll bytes c

def putString (s : NimStr) (c : Cursor n) : Option (Cursor n) := do
  let c ← putU32Le s.length c
  if 0 < s.length then copyMem s c else some c

theorem byteAt_eq (v k : Nat) : byteAt v (8 * k) = UInt8.ofNat (v / 256 ^ k) := by
  have hmask : (v >>> (8 * k)) &&& 0xFF = v / 256 ^ k % 256 := by
    rw [Nat.shiftRight_eq_div_pow, pow_mul]
    exact Nat.and_two_pow_sub_one_eq_mod _ 8
  rw [byteAt, hmask]
  exact UInt8.toNat_inj.mp (by simp)

/-- The words are stored as the reference encoder writes them. -/
theorem putU16Le_eq (v : Nat) (c : Cursor n) : putU16Le v c = putAll (leBytes 2 v) c := by
  have hbytes : leBytes 2 v = [byteAt v 0, byteAt v 8] := by
    simp only [leBytes, byteAt_eq v 0, byteAt_eq v 1, pow_zero, pow_one, Nat.div_one]
  simp only [hbytes, putU16Le, bind, putAll_cons_cons, putAll_singleton]

theorem putU32Le_eq (v : Nat) (c : Cursor n) : putU32Le v c = putAll (leBytes 4 v) c := by
  have hbytes : leBytes 4 v = [byteAt v 0, byteAt v 8, byteAt v 16, byteAt v 24] := by
    simp only [leBytes, byteAt_eq v 0, byteAt_eq v 1, byteAt_eq v 2, byteAt_eq v 3,
      Nat.div_div_eq_div_mul, Nat.reducePow, Nat.reduceMul, Nat.div_one]
  simp only [hbytes, putU32Le, bind, putAll_cons_cons, putAll_singleton]

theorem putU64Le_eq (v : Nat) (c : Cursor n) : putU64Le v c = putAll (leBytes 8 v) c := by
  have hbytes : leBytes 8 v = [byteAt v 0, byteAt v 8, byteAt v 16, byteAt v 24, byteAt v 32,
      byteAt v 40, byteAt v 48, byteAt v 56] := by
    simp only [leBytes, byteAt_eq v 0, byteAt_eq v 1, byteAt_eq v 2, byteAt_eq v 3, byteAt_eq v 4,
      byteAt_eq v 5, byteAt_eq v 6, byteAt_eq v 7, Nat.div_div_eq_div_mul, Nat.reducePow,
      Nat.reduceMul, Nat.div_one]
  simp only [hbytes, putU64Le, bind, putAll_cons_cons, putAll_singleton]

theorem putString_eq (s : NimStr) (c : Cursor n) : putString s c = putAll (writeString s) c := by
  simp only [putString, bind, putU32Le_eq, writeString, putAll_append, copyMem]
  cases s with
  | nil => rfl
  | cons b s => simp only [List.length_cons, Nat.zero_lt_succ, if_true]

end Stores

/-! ## 2. A record in the batch buffer -/

def RecordHeaderBytes : Nat := 2 + 2 + 8 + 8 + 8 + 8 + 8 + 8 + 4 + 4

/-- `payloadLen` and `frameLen` of `appendFragmentRecord`. -/
def inlinePayloadLen (r : MonitorRecord) : Nat :=
  RecordHeaderBytes + 4 + r.path.length + 4 + r.detail.length

def inlineFrameLen (r : MonitorRecord) : Nat := 4 + inlinePayloadLen r

/-- The inline encoder of `appendFragmentRecord`. -/
def inlineEncode {n : Nat} (r : MonitorRecord) (c : Cursor n) : Option (Cursor n) := do
  let c ← putU32Le (inlinePayloadLen r) c
  let c ← putU16Le r.kind.ord c
  let c ← putU16Le r.observationKind.ord c
  let c ← putU64Le r.seq.toNat c
  let c ← putU64Le r.osPid.toNat c
  let c ← putU64Le r.parentOsPid.toNat c
  let c ← putU64Le r.threadId.toNat c
  let c ← putU64Le r.childOsPid.toNat c
  let c ← putU64Le r.result.toUInt64.toNat c
  let c ← putU32Le r.flags.toNat c
  let c ← putU32Le r.probeResult.ord c
  let c ← putString r.path c
  putString r.detail c

theorem inlinePayloadLen_eq (r : MonitorRecord) :
    inlinePayloadLen r = (encodeRecordPayload r).length := by
  rw [encodeRecordPayload_length, inlinePayloadLen, RecordHeaderBytes, RecordFixedHeaderLen]

theorem inlineFrameLen_eq (r : MonitorRecord) : inlineFrameLen r = (encodeFrame r).length := by
  rw [encodeFrame, frame_length, inlineFrameLen, inlinePayloadLen_eq]

/-- **The inline encoder stores the reference frame.** -/
theorem inlineEncode_eq {n : Nat} (r : MonitorRecord) (c : Cursor n) :
    inlineEncode r c = putAll (encodeFrame r) c := by
  rw [encodeFrame, frame, ← inlinePayloadLen_eq]
  simp only [inlineEncode, putU16Le_eq, putU32Le_eq, putU64Le_eq, putString_eq,
    encodeRecordPayload, storeRecordFixedHeader, putAll_append, Option.bind_assoc, bind]

/-- **A frame that fits is stored whole**, and what was in the buffer stays. -/
theorem inlineEncode_of_le {n : Nat} {r : MonitorRecord} {c : Cursor n}
    (h : c.pos + inlineFrameLen r ≤ n) :
    ∃ c', inlineEncode r c = some c' ∧ c'.pos = c.pos + inlineFrameLen r ∧
      c'.filled = c.filled ++ encodeFrame r := by
  rw [inlineEncode_eq, inlineFrameLen_eq]
  rw [inlineFrameLen_eq] at h
  exact putAll_of_le h

/-! ## 3. The committed marker of a slot -/

/-- The marker of a slot, with the run token and the diagnostic context behind its detail. -/
def readTailMarker (osPid threadId : UInt64) (detail : NimStr) : MonitorRecord where
  kind := mrEventLoss
  observationKind := moEventLoss
  osPid := osPid
  threadId := threadId
  detail := detail

/-- `precomputeSigSafeCommittedFrame`: stored into the slot's own array, or skipped when it does
not fit there. -/
def precomputeSigSafeCommittedFrame (osPid threadId : UInt64) (fragmentRunToken : NimStr)
    (committedFrame : Buffer SigSafeCommittedBufLen) : Option (Cursor SigSafeCommittedBufLen) :=
  let detail := ReadTailCommittedDetail ++ fragmentRunToken
  let payloadLen := RecordHeaderBytes + 4 + 0 + 4 + detail.length
  let frameLen := 4 + payloadLen
  if SigSafeCommittedBufLen < frameLen then some ⟨committedFrame, 0⟩
  else do
    let c ← putU32Le payloadLen ⟨committedFrame, 0⟩
    let c ← putU16Le mrEventLoss.ord c
    let c ← putU16Le moEventLoss.ord c
    let c ← putU64Le 0 c
    let c ← putU64Le osPid.toNat c
    let c ← putU64Le 0 c
    let c ← putU64Le threadId.toNat c
    let c ← putU64Le 0 c
    let c ← putU64Le 0 c
    let c ← putU32Le 0 c
    let c ← putU32Le 0 c
    let c ← putU32Le 0 c
    let c ← putU32Le detail.length c
    if 0 < detail.length then copyMem detail c else some c

/-- The slot's marker is the inline encoding of the marker record. -/
theorem precompute_eq (osPid threadId : UInt64) (token : NimStr)
    (committedFrame : Buffer SigSafeCommittedBufLen) :
    precomputeSigSafeCommittedFrame osPid threadId token committedFrame =
      if SigSafeCommittedBufLen <
          inlineFrameLen (readTailMarker osPid threadId (ReadTailCommittedDetail ++ token)) then
        some ⟨committedFrame, 0⟩
      else
        inlineEncode (readTailMarker osPid threadId (ReadTailCommittedDetail ++ token))
          ⟨committedFrame, 0⟩ := by
  -- its path is empty, and its numbers but two are zero
  have hpath : ∀ c : Cursor SigSafeCommittedBufLen, putString [] c = putU32Le 0 c := by
    intro c
    rw [putString]
    cases putU32Le 0 c <;> rfl
  have hlen : inlineFrameLen (readTailMarker osPid threadId (ReadTailCommittedDetail ++ token)) =
      4 + (RecordHeaderBytes + 4 + 0 + 4 + (ReadTailCommittedDetail ++ token).length) := rfl
  have hzero : (0 : Int64).toUInt64.toNat = 0 ∧ ProbeResult.prUnknown.ord = 0 := by decide
  rw [hlen]
  unfold precomputeSigSafeCommittedFrame
  simp only
  split
  · rfl
  · simp only [inlineEncode, readTailMarker, hpath, hzero, inlinePayloadLen, List.length_nil,
      UInt64.toNat_zero, UInt32.toNat_zero]
    rfl

/-- **The slot's marker is the reference frame, or nothing.** -/
theorem precompute_spec (osPid threadId : UInt64) (token : NimStr)
    (committedFrame : Buffer SigSafeCommittedBufLen) :
    ∃ c, precomputeSigSafeCommittedFrame osPid threadId token committedFrame = some c ∧
      c.pos ≤ SigSafeCommittedBufLen ∧
      (c.pos ≠ 0 → c.filled =
        encodeFrame (readTailMarker osPid threadId (ReadTailCommittedDetail ++ token))) := by
  rw [precompute_eq]
  split
  · exact ⟨_, rfl, Nat.zero_le _, fun h => absurd rfl h⟩
  · rename_i hfits
    obtain ⟨c, hc, hpos, hfilled⟩ := inlineEncode_of_le
      (c := ⟨committedFrame, 0⟩)
      (Nat.le_trans (Nat.le_of_eq (Nat.zero_add _)) (Nat.not_lt.mp hfits))
    refine ⟨c, hc, ?_, fun _ => ?_⟩
    · rw [hpos]
      exact Nat.le_trans (Nat.le_of_eq (Nat.zero_add _)) (Nat.not_lt.mp hfits)
    · rw [hfilled, Cursor.filled, List.take_zero, List.nil_append]

end IoMon
