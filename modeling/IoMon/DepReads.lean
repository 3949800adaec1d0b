/-
# The element decoder, read by read

An element comes out of memory that every monitored process can write, so the decoder has to take
any bytes.  `decodeDepRecord` of `DepCodec` is its result; here the same function is written with
its position, so that every `buf[i]` is an access that can fail, every `int(length)` a conversion
that can fail and every `pos + length` an addition that can overflow.

  * `decodeDepRecordChecked_eq` -- the two agree, so no access is ever out of bounds;
  * `decodeDepRecord_total_iff` -- the decoder returns exactly when neither string, where it gets
    to read its length, claims to end at or beyond 2^63.  The comparison with the buffer that
    would refuse such a length comes after the conversion and the addition.
-/
import IoMon.DepCodec

namespace IoMon

open ByteText ByteCodec MonitorRecordKind MonitorObservationKind ProbeResult

/-! ## 1. Checked accesses -/

/-- What a run of the decoder can abort with. -/
inductive ReadDefect
  | indexDefect | rangeDefect | overflowDefect
  deriving DecidableEq, Repr

abbrev Checked (α : Type) := Except ReadDefect α

/-- `buf[i]`. -/
def readAt (buf : List UInt8) (i : Nat) : Checked UInt8 :=
  match buf[i]? with
  | some b => .ok b
  | none => .error .indexDefect

/-- `buf[pos]`, `buf[pos + 1]`, … one after the other. -/
def readBytes (buf : List UInt8) : (pos n : Nat) → Checked (List UInt8)
  | _, 0 => .ok []
  | pos, n + 1 => do
    let b ← readAt buf pos
    let rest ← readBytes buf (pos + 1) n
    return b :: rest

/-- `getU16`, `getU32` and `getU64`. -/
def getLe (buf : List UInt8) (pos k : Nat) : Checked Nat := do
  let bytes ← readBytes buf pos k
  return leNat bytes

/-- `int(value)` of a 64-bit value. -/
def checkedInt (value : Nat) : Checked Nat :=
  if value < 2 ^ 63 then .ok value else .error .rangeDefect

/-- A signed 64-bit addition of two non-negative numbers. -/
def checkedAdd (a b : Nat) : Checked Nat :=
  if a + b < 2 ^ 63 then .ok (a + b) else .error .overflowDefect

/-! ## 2. The decoder -/

/-- The loop of `getVarint`: the value and the position behind it, or `none` for its `false`.
The shift grows by seven, so eleven rounds are enough for it to reach 64. -/
def getVarintAt (buf : List UInt8) : (rounds shift result0 pos : Nat) →
    Checked (Option (Nat × Nat))
  | 0, _, _, _ => .ok none
  | rounds + 1, shift, result0, pos =>
    if pos ≥ buf.length ∨ shift ≥ 64 then .ok none
    else do
      let b ← readAt buf pos
      let result0 := result0 ||| ((b.toNat % 128) <<< shift) % 2 ^ 64
      if b.toNat < 128 then return some (result0, pos + 1)
      else getVarintAt buf rounds (shift + 7) result0 (pos + 1)

/-- The block that reads the path, and once more the detail. -/
def getStringAt (buf : List UInt8) (pos : Nat) : Checked (Option (NimStr × Nat)) := do
  match ← getVarintAt buf 11 0 0 pos with
  | none => return none
  | some (length, pos) =>
    let n ← checkedInt length
    let stop ← checkedAdd pos n
    if stop > buf.length then return none
    else if length > 0 then
      let s ← readBytes buf pos n
      return some (s, stop)
    else return some ([], pos)

/-- `decodeDepRecord` with its position; `none` is `ok = false`. -/
def decodeDepRecordChecked (buf : List UInt8) : Checked (Option MonitorRecord) := do
  if buf.length < RecordFixedHeaderLen then return none
  else
    let kindOrd ← getLe buf 0 2
    let obsOrd ← getLe buf 2 2
    match MonitorRecordKind.ofOrd kindOrd with
    | none => return none
    | some kind =>
      match MonitorObservationKind.ofOrd obsOrd with
      | none => return none
      | some observationKind =>
        let seq ← getLe buf 4 8
        let osPid ← getLe buf 12 8
        let parentOsPid ← getLe buf 20 8
        let threadId ← getLe buf 28 8
        let childOsPid ← getLe buf 36 8
        let result ← getLe buf 44 8
        let flags ← getLe buf 52 4
        let probeOrd ← getLe buf 56 4
        match ProbeResult.ofOrd probeOrd with
        | none => return none
        | some probeResult =>
          match ← getStringAt buf RecordFixedHeaderLen with
          | none => return none
          | some (path, pos) =>
            match ← getStringAt buf pos with
            | none => return none
            | some (detail, _) =>
              return some
                { kind := kind
                  observationKind := observationKind
                  seq := UInt64.ofNat seq
                  osPid := UInt64.ofNat osPid
                  parentOsPid := UInt64.ofNat parentOsPid
                  threadId := UInt64.ofNat threadId
                  childOsPid := UInt64.ofNat childOsPid
                  result := (UInt64.ofNat result).toInt64
                  flags := UInt32.ofNat flags
                  probeResult := probeResult
                  path := path
                  detail := detail }

/-! ## 3. Every access is inside the buffer -/

/-- The failures `DepCodec`'s decoder knows, among those of a checked run. -/
def ofNimDefect {α : Type} : Except NimDefect α → Checked α
  | .error .rangeDefect => .error .rangeDefect
  | .error .overflowDefect => .error .overflowDefect
  | .ok a => .ok a

theorem readAt_ok {buf : List UInt8} {i : Nat} (h : i < buf.length) :
    readAt buf i = .ok buf[i] := by
  rw [readAt, List.getElem?_eq_getElem h]

/-- Reads below the length give the bytes that are there. -/
theorem readBytes_ok {buf : List UInt8} {pos n : Nat} (h : pos + n ≤ buf.length) :
    readBytes buf pos n = .ok ((buf.drop pos).take n) := by
  induction n generalizing pos with
  | zero => rfl
  | succ n ih =>
    have hpos : pos < buf.length := by omega
    have ih := @ih (pos + 1) (by omega)
    rw [readBytes, readAt_ok hpos, ih, List.drop_eq_getElem_cons hpos, List.take_succ_cons]
    rfl

theorem getLe_ok {buf : List UInt8} {pos k : Nat} (h : pos + k ≤ buf.length) :
    getLe buf pos k = .ok (loadLe buf pos k) := by
  rw [getLe, readBytes_ok h]
  rfl

/-- The groups read so far lie below the shift, so setting the next group's bits adds it. -/
theorem or_group_eq {acc shift : Nat} (h : acc < 2 ^ shift) (group : Nat) :
    (acc % 2 ^ 64) ||| (group <<< shift) % 2 ^ 64 = (acc + group * 2 ^ shift) % 2 ^ 64 := by
  rw [← Nat.or_mod_two_pow, Nat.or_comm, ← Nat.shiftLeft_add_eq_or_of_lt h, Nat.shiftLeft_eq,
    Nat.add_comm]

/-- What the list reader returns, with the position instead of the rest. -/
def atPosition (bufLen : Nat) : Option (Nat × List UInt8) → Option (Nat × Nat)
  | none => none
  | some (value, rest) => some (value % 2 ^ 64, bufLen - rest.length)

/-- **The varint loop reads inside the buffer**, and reads what the list reader does. -/
theorem getVarintAt_eq (buf : List UInt8) (rounds shift acc pos : Nat)
    (hacc : acc < 2 ^ shift) (hrounds : 64 < shift + 7 * rounds) :
    getVarintAt buf rounds shift (acc % 2 ^ 64) pos =
      .ok (atPosition buf.length (getVarint 64 shift acc (buf.drop pos))) := by
  induction rounds generalizing shift acc pos with
  | zero =>
    have hend : shift ≥ 64 := by omega
    rw [getVarintAt]
    cases buf.drop pos with
    | nil => rfl
    | cons b rest => rw [getVarint, if_pos hend]; rfl
  | succ rounds ih =>
    rw [getVarintAt]
    by_cases hpos : pos ≥ buf.length
    · rw [if_pos (.inl hpos), List.drop_eq_nil_of_le hpos]
      rfl
    have hlt : pos < buf.length := by omega
    rw [List.drop_eq_getElem_cons hlt, getVarint]
    by_cases hshift : shift ≥ 64
    · rw [if_pos (.inr hshift), if_pos hshift]
      rfl
    have hgo : ¬ (pos ≥ buf.length ∨ shift ≥ 64) := by omega
    rw [if_neg hgo, if_neg hshift, readAt_ok hlt]
    dsimp only [bind, Except.bind]
    rw [or_group_eq hacc]
    split
    · have hrest : buf.length - (buf.drop (pos + 1)).length = pos + 1 := by
        rw [List.length_drop]
        omega
      rw [atPosition, hrest]
      rfl
    · have hnext : acc + buf[pos].toNat % 128 * 2 ^ shift < 2 ^ (shift + 7) := by
        have hgroup : buf[pos].toNat % 128 < 128 := Nat.mod_lt _ (by decide)
        have := Nat.mul_le_mul_right (2 ^ shift) (Nat.le_of_lt_succ hgroup)
        rw [pow_add]
        omega
      exact ih (shift + 7) _ (pos + 1) hnext (by omega)

/-! ## 4. What a length claims -/

/-- The string at `pos`: where its bytes begin, and how many its varint length claims, as the
64-bit number the groups are gathered in. -/
def stringClaim (buf : List UInt8) (pos : Nat) : Option (Nat × Nat) :=
  (varintGroups 10 (buf.drop pos)).map fun groups =>
    (pos + groups.length, groupsValue groups % 2 ^ 64)

theorem getVarint_claim (buf : List UInt8) (pos : Nat) :
    getVarint 64 0 0 (buf.drop pos) = (varintGroups 10 (buf.drop pos)).map fun groups =>
      (groupsValue groups, buf.drop (pos + groups.length)) := by
  have hten : ∀ j, j < 10 ↔ 0 + 7 * j < 64 := by omega
  rw [getVarint_eq (buf.drop pos) 10 0 0 hten]
  simp only [Nat.zero_add, pow_zero, Nat.mul_one, List.drop_drop]

/-- The bytes of a string begin inside the buffer or at its end. -/
theorem stringClaim_start_le {buf : List UInt8} {pos start length : Nat}
    (hpos : pos ≤ buf.length) (h : stringClaim buf pos = some (start, length)) :
    pos ≤ start ∧ start ≤ buf.length := by
  obtain ⟨groups, hgroups, hclaim⟩ := Option.map_eq_some_iff.mp h
  obtain ⟨rfl, -⟩ := Prod.mk.inj hclaim
  have hfit : groups.length ≤ (buf.drop pos).length := by
    rw [varintGroups] at hgroups
    split at hgroups
    · obtain rfl := Option.some.inj hgroups
      exact List.length_take_le' _ _
    · exact absurd hgroups (by simp)
  rw [List.length_drop] at hfit
  omega

/-- What the block makes of a claim: the conversion and the addition come before the comparison
with the buffer. -/
def acceptClaim (bufLen : Nat) : Option (Nat × Nat) → Except NimDefect (Option (Nat × Nat))
  | none => .ok none
  | some (start, length) =>
    if length ≥ 2 ^ 63 then .error .rangeDefect
    else if start + length ≥ 2 ^ 63 then .error .overflowDefect
    else if start + length > bufLen then .ok none
    else .ok (some (start, length))

theorem acceptClaim_eq_some {bufLen : Nat} {claim : Option (Nat × Nat)} {c : Nat × Nat}
    (h : acceptClaim bufLen claim = .ok (some c)) :
    claim = some c ∧ c.1 + c.2 ≤ bufLen ∧ c.1 + c.2 < 2 ^ 63 := by
  unfold acceptClaim at h
  split at h
  · exact absurd h (by simp)
  rename_i start length
  split at h
  · exact absurd h (by simp)
  split at h
  · exact absurd h (by simp)
  split at h
  · exact absurd h (by simp)
  obtain rfl := Option.some.inj (Except.ok.inj h)
  refine ⟨rfl, ?_, ?_⟩ <;> dsimp only <;> omega

/-- A claim aborts the block exactly when the string would end at or beyond 2^63. -/
theorem acceptClaim_ok_iff {bufLen : Nat} {claim : Option (Nat × Nat)} :
    (∃ o, acceptClaim bufLen claim = .ok o) ↔ ∀ c, claim = some c → c.1 + c.2 < 2 ^ 63 := by
  cases claim with
  | none => exact iff_of_true ⟨none, rfl⟩ fun c h => absurd h (by simp)
  | some c =>
    obtain ⟨start, length⟩ := c
    rw [acceptClaim]
    by_cases hrange : length ≥ 2 ^ 63
    · rw [if_pos hrange]
      refine iff_of_false (by simp) fun h => ?_
      have := h _ rfl
      dsimp only at this
      omega
    by_cases hadd : start + length ≥ 2 ^ 63
    · rw [if_neg hrange, if_pos hadd]
      refine iff_of_false (by simp) fun h => ?_
      have := h _ rfl
      dsimp only at this
      omega
    rw [if_neg hrange, if_neg hadd]
    refine iff_of_true ?_ fun c h => ?_
    · split
      · exact ⟨_, rfl⟩
      · exact ⟨_, rfl⟩
    · obtain rfl := Option.some.inj h
      exact Nat.not_le.mp hadd

/-- The list decoder's block, on the claim. -/
theorem getLengthPrefixed_claim {buf : List UInt8} {pos : Nat} (hpos : pos ≤ buf.length) :
    getLengthPrefixed buf.length (buf.drop pos) =
      (acceptClaim buf.length (stringClaim buf pos)).map (Option.map fun c =>
        ((buf.drop c.1).take c.2, buf.drop (c.1 + c.2))) := by
  have hstart (start length : Nat) (h : stringClaim buf pos = some (start, length)) :=
    stringClaim_start_le hpos h
  rw [getLengthPrefixed, getVarint_claim]
  unfold stringClaim at hstart ⊢
  cases hgroups : varintGroups 10 (buf.drop pos) with
  | none => rfl
  | some groups =>
    rw [hgroups] at hstart
    have hle := (hstart _ _ rfl).2
    have hposition : buf.length - (buf.drop (pos + groups.length)).length =
        pos + groups.length := by
      rw [List.length_drop]
      omega
    simp only [Option.map_some, hposition, List.drop_drop, acceptClaim]
    repeat' split
    all_goals rfl

/-- The checked block agrees with it, and reads the string where it is. -/
theorem getStringAt_claim {buf : List UInt8} {pos : Nat} (hpos : pos ≤ buf.length) :
    getStringAt buf pos =
      ofNimDefect ((acceptClaim buf.length (stringClaim buf pos)).map (Option.map fun c =>
        ((buf.drop c.1).take c.2, c.1 + c.2))) := by
  have hstart (start length : Nat) (h : stringClaim buf pos = some (start, length)) :=
    stringClaim_start_le hpos h
  have hvarint := getVarintAt_eq buf 11 0 0 pos (by decide) (by decide)
  rw [getVarint_claim, Nat.zero_mod] at hvarint
  rw [getStringAt, hvarint]
  unfold stringClaim at hstart ⊢
  cases hgroups : varintGroups 10 (buf.drop pos) with
  | none => rfl
  | some groups =>
    rw [hgroups] at hstart
    have hle := (hstart _ _ rfl).2
    have hposition : buf.length - (buf.drop (pos + groups.length)).length =
        pos + groups.length := by
      rw [List.length_drop]
      omega
    simp only [Option.map_some, atPosition, hposition, bind, Except.bind, acceptClaim]
    generalize pos + groups.length = start at hle ⊢
    generalize groupsValue groups % 2 ^ 64 = length
    by_cases hrange : length < 2 ^ 63
    · by_cases hadd : start + length < 2 ^ 63
      · simp only [checkedInt, if_pos hrange, checkedAdd, if_pos hadd, ge_iff_le,
          if_neg (Nat.not_le.mpr hrange), if_neg (Nat.not_le.mpr hadd)]
        by_cases hover : start + length > buf.length
        · rw [if_pos hover, if_pos hover]
          rfl
        · rw [if_neg hover, if_neg hover, readBytes_ok (by omega)]
          by_cases hzero : length > 0
          · rw [if_pos hzero]
            rfl
          · -- a string of length zero is read as the empty one, and the position stays
            obtain rfl : length = 0 := by omega
            rfl
      · simp only [checkedInt, if_pos hrange, checkedAdd, if_neg hadd, ge_iff_le,
          if_neg (Nat.not_le.mpr hrange), if_pos (Nat.not_lt.mp hadd)]
        rfl
    · simp only [checkedInt, if_neg hrange, ge_iff_le, if_pos (Nat.not_lt.mp hrange)]
      rfl

/-! ## 5. The decoder's outcome -/

/-- The three ordinals of a header that is there are in range. -/
def headerOf (buf : List UInt8) :
    Option (MonitorRecordKind × MonitorObservationKind × ProbeResult) :=
  if buf.length < RecordFixedHeaderLen then none
  else
    match MonitorRecordKind.ofOrd (loadLe buf 0 2), MonitorObservationKind.ofOrd (loadLe buf 2 2),
        ProbeResult.ofOrd (loadLe buf 56 4) with
    | some kind, some observationKind, some probeResult =>
      some (kind, observationKind, probeResult)
    | _, _, _ => none

/-- Behind a good header, what becomes of the strings is what becomes of the record. -/
theorem decodeDepRecordChecked_header (buf : List UInt8) :
    decodeDepRecordChecked buf =
      match headerOf buf with
      | none => .ok none
      | some (kind, observationKind, probeResult) => do
        match ← getStringAt buf RecordFixedHeaderLen with
        | none => return none
        | some (path, pos) =>
          match ← getStringAt buf pos with
          | none => return none
          | some (detail, _) =>
            return some { loadRecordFixedHeader buf kind observationKind probeResult with
                          path := path, detail := detail } := by
  unfold decodeDepRecordChecked headerOf
  by_cases hlen : buf.length < RecordFixedHeaderLen
  · rw [if_pos hlen, if_pos hlen]
    rfl
  have hfield : ∀ off k, off + k ≤ 60 → getLe buf off k = .ok (loadLe buf off k) := by
    intro off k hoff
    rw [RecordFixedHeaderLen] at hlen
    exact getLe_ok (by omega)
  simp only [if_neg hlen, hfield 0 2 (by decide), hfield 2 2 (by decide), hfield 4 8 (by decide),
    hfield 12 8 (by decide), hfield 20 8 (by decide), hfield 28 8 (by decide),
    hfield 36 8 (by decide), hfield 44 8 (by decide), hfield 52 4 (by decide),
    hfield 56 4 (by decide), bind, Except.bind]
  cases MonitorRecordKind.ofOrd (loadLe buf 0 2) with
  | none => rfl
  | some kind =>
    cases MonitorObservationKind.ofOrd (loadLe buf 2 2) with
    | none => rfl
    | some observationKind =>
      cases ProbeResult.ofOrd (loadLe buf 56 4) <;> rfl

/-- The strings of the decoder behind a good header. -/
theorem decodeDepRecord_header (buf : List UInt8) :
    decodeDepRecord buf =
      (headerOf buf).elim (.ok none) fun header =>
        (getLengthPrefixed buf.length (buf.drop RecordFixedHeaderLen)).bind fun path =>
          path.elim (.ok none) fun path =>
            (getLengthPrefixed buf.length path.2).map fun detail => detail.map fun detail =>
              { loadRecordFixedHeader buf header.1 header.2.1 header.2.2 with
                path := path.1, detail := detail.1 } := by
  unfold decodeDepRecord headerOf
  split
  · rfl
  cases MonitorRecordKind.ofOrd (loadLe buf 0 2) with
  | none => rfl
  | some kind =>
    cases MonitorObservationKind.ofOrd (loadLe buf 2 2) with
    | none => rfl
    | some observationKind =>
      cases ProbeResult.ofOrd (loadLe buf 56 4) with
      | none => rfl
      | some probeResult =>
        simp only [Option.elim]
        cases getLengthPrefixed buf.length (buf.drop RecordFixedHeaderLen) with
        | error e => rfl
        | ok path =>
          cases path with
          | none => rfl
          | some path =>
            simp only [Except.bind]
            cases getLengthPrefixed buf.length path.2 with
            | error e => rfl
            | ok detail => cases detail <;> rfl

theorem headerLen_le {buf : List UInt8}
    {h : MonitorRecordKind × MonitorObservationKind × ProbeResult}
    (hheader : headerOf buf = some h) : RecordFixedHeaderLen ≤ buf.length := by
  unfold headerOf at hheader
  split at hheader
  · exact absurd hheader (by simp)
  · omega

/-- **The checked decoder is the decoder.**  None of its outcomes is an index defect. -/
theorem decodeDepRecordChecked_eq (buf : List UInt8) :
    decodeDepRecordChecked buf = ofNimDefect (decodeDepRecord buf) := by
  rw [decodeDepRecordChecked_header, decodeDepRecord_header]
  cases hheader : headerOf buf with
  | none => rfl
  | some header =>
    obtain ⟨kind, observationKind, probeResult⟩ := header
    have hlen := headerLen_le hheader
    dsimp only
    rw [getStringAt_claim hlen, getLengthPrefixed_claim hlen]
    cases hpath : acceptClaim buf.length (stringClaim buf RecordFixedHeaderLen) with
    | error e => cases e <;> rfl
    | ok path =>
      cases path with
      | none => rfl
      | some c =>
        have hend := (acceptClaim_eq_some hpath).2.1
        dsimp only [Except.map, Option.map, Option.elim, ofNimDefect, bind, Except.bind]
        rw [getStringAt_claim hend, getLengthPrefixed_claim hend]
        cases acceptClaim buf.length (stringClaim buf (c.1 + c.2)) with
        | error e => cases e <;> rfl
        | ok detail => cases detail <;> rfl

theorem ofNimDefect_ne_indexDefect {α : Type} (x : Except NimDefect α) :
    ofNimDefect x ≠ .error .indexDefect := by
  cases x with
  | ok a => exact fun h => absurd h (by simp [ofNimDefect])
  | error e => cases e <;> exact fun h => absurd h (by simp [ofNimDefect])

/-- Neither string the decoder gets to claims to end at or beyond 2^63: not the path behind a
good header, and not the detail behind a path that lies in the buffer. -/
def SaneLengths (buf : List UInt8) : Prop :=
  (headerOf buf).isSome = true → ∀ path, stringClaim buf RecordFixedHeaderLen = some path →
    path.1 + path.2 < 2 ^ 63 ∧
      (path.1 + path.2 ≤ buf.length → ∀ detail, stringClaim buf (path.1 + path.2) = some detail →
        detail.1 + detail.2 < 2 ^ 63)

/-- **The decoder is total exactly on sane lengths.**  On every buffer whatsoever it never reads
out of bounds, and it returns, with a record or with `ok = false`, if and only if neither length
it reads claims a string that ends at or beyond 2^63. -/
theorem decodeDepRecord_total_iff (buf : List UInt8) :
    decodeDepRecordChecked buf ≠ .error .indexDefect ∧
      ((∃ o, decodeDepRecordChecked buf = .ok o) ↔ SaneLengths buf) := by
  refine ⟨decodeDepRecordChecked_eq buf ▸ ofNimDefect_ne_indexDefect _, ?_⟩
  rw [decodeDepRecordChecked_header]
  unfold SaneLengths
  cases hheader : headerOf buf with
  | none => exact iff_of_true ⟨none, rfl⟩ fun h => absurd h (by simp)
  | some header =>
    have hlen := headerLen_le hheader
    obtain ⟨kind, observationKind, probeResult⟩ := header
    dsimp only
    rw [getStringAt_claim hlen]
    have hpathOk := @acceptClaim_ok_iff buf.length (stringClaim buf RecordFixedHeaderLen)
    cases hpath : acceptClaim buf.length (stringClaim buf RecordFixedHeaderLen) with
    | error e =>
      -- the path's length aborts the run
      rw [hpath] at hpathOk
      refine iff_of_false (by cases e <;> simp [ofNimDefect, Except.map, bind, Except.bind]) ?_
      intro h
      exact absurd (hpathOk.mpr fun c hc => (h rfl c hc).1) (by simp)
    | ok path =>
      have hsane := hpathOk.mp ⟨path, hpath⟩
      cases path with
      | none =>
        refine iff_of_true ⟨none, rfl⟩ fun _ c hc => ⟨hsane c hc, fun hle => ?_⟩
        -- a sane claim that fits the buffer would have been accepted
        rw [hc, acceptClaim] at hpath
        have := hsane c hc
        simp only [ge_iff_le] at hpath
        rw [if_neg (by omega), if_neg (by omega), if_neg (by omega)] at hpath
        exact absurd hpath (by simp)
      | some c =>
        obtain ⟨hclaim, hend, hsmall⟩ := acceptClaim_eq_some hpath
        have hdetailOk := @acceptClaim_ok_iff buf.length (stringClaim buf (c.1 + c.2))
        dsimp only [Except.map, Option.map, Option.elim, ofNimDefect, bind, Except.bind]
        rw [getStringAt_claim hend]
        cases hdetail : acceptClaim buf.length (stringClaim buf (c.1 + c.2)) with
        | error e =>
          rw [hdetail] at hdetailOk
          refine iff_of_false (by cases e <;> simp [ofNimDefect, Except.map]) fun h => ?_
          exact absurd (hdetailOk.mpr ((h rfl c hclaim).2 hend)) (by simp)
        | ok detail =>
          have hdetailSane := hdetailOk.mp ⟨detail, hdetail⟩
          refine iff_of_true ?_ fun _ d hd => ?_
          · cases detail with
            | none => exact ⟨none, rfl⟩
            | some d => exact ⟨_, rfl⟩
          · rw [hclaim] at hd
            obtain rfl := Option.some.inj hd
            exact ⟨hsmall, fun _ => hdetailSane⟩

/-- A good header, and a path whose length is the ten-byte varint of 2^63. -/
def overlongPath : List UInt8 :=
  storeRecordFixedHeader { kind := mrFileRead, observationKind := moFileRead } ++
    [128, 128, 128, 128, 128, 128, 128, 128, 128, 1]

/-- **The decoder aborts on it**, where the buffer's length alone refuses it. -/
theorem overlongPath_aborts : decodeDepRecordChecked overlongPath = .error .rangeDefect := by
  decide +kernel

end IoMon
