/-
# What the byte cap bounds

`accountFragmentBytes` adds up the bytes of the batches and of the large frames that it is told of,
and retires the fragment when they reach the cap.  The markers go to the same file through
`writeReadTailMarker`, and nobody accounts them: a fragment that arms and clears its sentinel over
and over grows by two markers each time, whatever the cap is.

The record bytes are bounded, and the file is while the sentinel is armed a bounded number of times,
as long as every batch reaches the file as a whole or not at all, and every batch that does is
accounted.

  * `CapHolds` -- what the cap should bound;
  * `CapInv` -- what every steady step keeps;
  * `CapInv.spends` -- a step writes two markers more at most, and only where it arms the sentinel;
  * `capHolds_of_steadyRun` -- the steady runs;
  * `markers_outgrow_cap` -- a fragment that grows past any bound of its cap.
-/
import IoMon.Writer.FragmentFile

namespace IoMon.SlotMachine

open ByteText FixedBuffer MonitorRecordKind MonitorObservationKind

/-! ## 1. What the cap should bound -/

/-- The largest frame a run appends. -/
def largestFrame : List SlotOp → Nat
  | [] => 0
  | .append _ _ record :: rest => max (encodeFrame record).length (largestFrame rest)
  | _ :: rest => largestFrame rest

/-- **The byte cap bounds the file**: it holds the cap, one batch buffer, one record frame and `K`
marker frames at most, and once the cap is passed it holds one cap marker and no record behind it.
The cap is passed when the records reach it, or the file does by more than those markers. -/
structure CapHolds (cfg : WriterConfig) (K : Nat) (ops : List SlotOp) (s : Slot) : Prop where
  bounded : fileBytes s.log ≤
    cfg.fragmentByteCap + FragmentBatchBufLen + largestFrame ops + K * largestMarker s.log
  marked : cfg.fragmentByteCap ≤ recordBytes s.log ∨
      cfg.fragmentByteCap + K * largestMarker s.log ≤ fileBytes s.log →
    capMarkers s.log = 1
  noneLater : lateBytes s.log = 0

/-! ## 2. Steady steps -/

/-- What is in the batch of an open slot. -/
def Slot.held (s : Slot) : Nat := if s.isOpen then s.batchLen else 0

/-- The write is told of as a whole, or nothing of it reached the file. -/
def AllOrNone (w : WriteOutcome) (len : Nat) : Prop :=
  w.whole len = true ∨ w.reached = 0

/-- A marker reaches the file of this fragment as a whole. -/
def MarkerIo.Reaches (cfg : WriterConfig) (key : FragmentKey) (detail : NimStr) (io : MarkerIo) :
    Prop :=
  io.handleOk = true ∧
    (encodeFrame (readTailMarker key.2.1 key.2.2
      (detail ++ cfg.fragmentRunToken ++ io.ctx))).length ≤ io.reached

/-- The flush writes its batch as a whole or not at all, keeps the handle while it clears an armed
sentinel, and where the batch brings the fragment to its cap the cap marker is written. -/
def FlushIo.Steady (cfg : WriterConfig) (key : FragmentKey) (s : Slot) (io : FlushIo) : Prop :=
  s.isOpen = true → 0 < s.batchLen → io.handleOk = true →
    AllOrNone io.write s.batchLen ∧
      (io.write.whole s.batchLen = true →
        (s.readingSentinelActive = true → io.committed.handleOk = true) ∧
          (cfg.fragmentByteCap ≤ s.fragmentBytes + s.batchLen →
            io.account.cap.Reaches cfg key FragmentCapReachedDetail))

/-- The same of a frame that is too large for the batch. -/
def AppendIo.GiantSteady (cfg : WriterConfig) (key : FragmentKey) (s : Slot)
    (record : MonitorRecord) (io : AppendIo) : Prop :=
  AllOrNone io.direct (encodeFrame record).length ∧
    (io.direct.whole (encodeFrame record).length = true →
      cfg.fragmentByteCap ≤ s.fragmentBytes + s.held + (encodeFrame record).length →
        io.account.cap.Reaches cfg key FragmentCapReachedDetail)

/-- A step whose record bytes are all accounted.  Those that another thread writes in a sweep never
are. -/
def SlotOp.Steady (cfg : WriterConfig) (key : FragmentKey) (s : Slot) : SlotOp → Prop
  | .append io _ record =>
    (s.isOpen = true → io.handleOk = true → flushesFirst io record s = true →
        io.flush.Steady cfg key s) ∧
      (FragmentBatchBufLen < inlineFrameLen record → io.GiantSteady cfg key s record)
  | .flush io => io.Steady cfg key s
  | .close _ io => io.handleOk = true → io.flush.Steady cfg key s
  | .forkDiscard => True
  | .sweep io => s.isOpen = true → 0 < s.batchLen → io.write.reached = 0

/-- The steps of one fragment identity.  A close keeps it. -/
def SlotOp.OfIdentity (key : FragmentKey) : SlotOp → Prop
  | .append _ fragmentDir record => (fragmentDir, record.osPid, record.threadId) = key
  | .close retainIdentity _ => retainIdentity = true
  | .flush _ | .sweep _ => True
  | .forkDiscard => False

/-- Every step is steady. -/
def SteadyRun (cfg : WriterConfig) (key : FragmentKey) : Slot → List SlotOp → Prop
  | _, [] => True
  | s, op :: rest => op.Steady cfg key s ∧ SteadyRun cfg key (s.step cfg op) rest

/-- An emit arms the sentinel: the sentinel guards its record, and is not armed already for the
batch that the record joins. -/
def SlotOp.arms (s : Slot) : SlotOp → Bool
  | .append io _ record =>
    sentinelGuards record &&
      (!s.isOpen || !s.readingSentinelActive || flushesFirst io record s)
  | _ => false

/-- How many emits of the run arm the sentinel. -/
def armings (cfg : WriterConfig) : Slot → List SlotOp → Nat
  | _, [] => 0
  | s, op :: rest => (op.arms s).toNat + armings cfg (s.step cfg op) rest

/-! ## 3. The invariant -/

/-- The fragment is below its cap, and `written` record bytes in the file wait to be accounted. -/
structure Counted (cfg : WriterConfig) (key : FragmentKey) (written : Nat) (s : Slot) : Prop where
  owned : s.key = key ∨ s.isOpen = false ∧ s.fragmentBytes = 0
  bytes : recordBytes s.log = s.fragmentBytes + written
  below : s.fragmentBytes < cfg.fragmentByteCap
  overCap : s.overCap = false
  batchLen : s.batchLen ≤ FragmentBatchBufLen
  capMarkers : capMarkers s.log = 0

/-- The fragment has reached its cap.  `F` is the size of a frame. -/
structure Capped (cfg : WriterConfig) (key : FragmentKey) (F : Nat) (s : Slot) : Prop where
  key : s.key = key
  isOpen : s.isOpen = false
  overCap : s.overCap = true
  reached : cfg.fragmentByteCap ≤ recordBytes s.log
  bounded : recordBytes s.log ≤ cfg.fragmentByteCap + FragmentBatchBufLen + F
  capMarkers : capMarkers s.log = 1
  lateBytes : lateBytes s.log = 0

def CapInv (cfg : WriterConfig) (key : FragmentKey) (F : Nat) (s : Slot) : Prop :=
  Counted cfg key 0 s ∨ Capped cfg key F s

section Invariant

variable {cfg : WriterConfig} {key : FragmentKey} {F written : Nat} {s s' : Slot}

theorem capInv_start : CapInv cfg key F {} :=
  .inl ⟨.inr ⟨rfl, rfl⟩, rfl, cfg.positive, rfl, Nat.zero_le _, rfl⟩

theorem Counted.owns (h : Counted cfg key written s) (hopen : s.isOpen = true) : s.key = key := by
  rcases h.owned with hkey | ⟨hclosed, -⟩
  · exact hkey
  · exact absurd hopen (by simp [hclosed])

/-- What a counted slot may change: it may close, empty its batch, and log what is plain. -/
structure Lowered (s s' : Slot) : Prop where
  key : s'.key = s.key
  isOpen : s'.isOpen = true → s.isOpen = true
  batchLen : s'.batchLen ≤ s.batchLen
  fragmentBytes : s'.fragmentBytes = s.fragmentBytes
  overCap : s'.overCap = s.overCap
  records : SameRecords s.log s'.log

theorem Lowered.refl (s : Slot) : Lowered s s :=
  ⟨rfl, id, Nat.le_refl _, rfl, rfl, .refl s.log⟩

theorem Lowered.trans {s t u : Slot} (h : Lowered s t) (h' : Lowered t u) : Lowered s u :=
  ⟨h'.key.trans h.key, h.isOpen ∘ h'.isOpen, h'.batchLen.trans h.batchLen,
    h'.fragmentBytes.trans h.fragmentBytes, h'.overCap.trans h.overCap, h.records.trans h'.records⟩

theorem lowered_emit (s : Slot) {e : SlotEvent} (he : e.Plain) : Lowered s (s.emit e) :=
  ⟨rfl, id, Nat.le_refl _, rfl, rfl, sameRecords_plain s.log he⟩

theorem Counted.lower (h : Counted cfg key written s) (hlow : Lowered s s') :
    Counted cfg key written s' := by
  refine ⟨?_, ?_, ?_, ?_, hlow.batchLen.trans h.batchLen, ?_⟩
  · rcases h.owned with hkey | ⟨hclosed, hzero⟩
    · exact .inl (hlow.key.trans hkey)
    · refine .inr ⟨?_, hlow.fragmentBytes.trans hzero⟩
      exact Bool.not_eq_true _ ▸ fun hopen => absurd (hlow.isOpen hopen) (by simp [hclosed])
  · rw [hlow.records.recordBytes, hlow.fragmentBytes]
    exact h.bytes
  · rw [hlow.fragmentBytes]
    exact h.below
  · exact hlow.overCap.trans h.overCap
  · exact hlow.records.capMarkers.trans h.capMarkers

theorem Capped.lower (h : Capped cfg key F s) (hlow : Lowered s s') : Capped cfg key F s' := by
  refine ⟨hlow.key.trans h.key, ?_, hlow.overCap.trans h.overCap, ?_, ?_,
    hlow.records.capMarkers.trans h.capMarkers, hlow.records.lateBytes.trans h.lateBytes⟩
  · exact Bool.not_eq_true _ ▸ fun hopen => absurd (hlow.isOpen hopen) (by simp [h.isOpen])
  · rw [hlow.records.recordBytes]
    exact h.reached
  · rw [hlow.records.recordBytes]
    exact h.bounded

theorem CapInv.lower (h : CapInv cfg key F s) (hlow : Lowered s s') : CapInv cfg key F s' :=
  h.imp (fun hcounted => hcounted.lower hlow) (fun hcapped => hcapped.lower hlow)

/-! ## 4. Markers, accounting, flushes -/

/-- The sentinel's markers are not the cap's. -/
theorem sentinel_details : (ReadTailPendingDetail == FragmentCapReachedDetail) = false ∧
    (ReadTailCommittedDetail == FragmentCapReachedDetail) = false := by
  decide +kernel

theorem plain_closed : SlotEvent.closed.Plain := ⟨rfl, rfl⟩

theorem plain_givenUp : SlotEvent.givenUp.Plain := ⟨rfl, rfl⟩

theorem plain_buffered (slotOpen : Bool) (r : MonitorRecord) :
    (SlotEvent.buffered slotOpen r).Plain :=
  ⟨rfl, rfl⟩

/-- A marker other than the cap's. -/
theorem plain_marker {detail : NimStr} (h : (detail == FragmentCapReachedDetail) = false)
    (slotOpen : Bool) (bytes : List UInt8) (reached : Nat) :
    (SlotEvent.wrote (.marker detail) slotOpen bytes reached).Plain := by
  refine ⟨rfl, ?_⟩
  cases slotOpen with
  | false => rfl
  | true => rw [SlotEvent.isCapMarker, h, Bool.false_and]

/-- Record bytes of which none reach the file. -/
theorem plain_wrote {kind : WriteKind} (hkind : ∀ detail, kind ≠ .marker detail)
    {slotOpen : Bool} (bytes : List UInt8) {reached : Nat}
    (hnone : slotOpen = false ∨ reached = 0) :
    (SlotEvent.wrote kind slotOpen bytes reached).Plain := by
  have hbytes : (SlotEvent.wrote kind slotOpen bytes reached).fileBytes = 0 := by
    cases slotOpen with
    | false => rfl
    | true =>
      have hzero : reached = 0 := hnone.resolve_left (by simp)
      rw [SlotEvent.fileBytes, hzero, Nat.zero_min]
  refine ⟨?_, ?_⟩
  · rw [SlotEvent.recordBytes, hbytes, ite_self]
  · cases kind with
    | marker detail => exact absurd rfl (hkind detail)
    | batch => rfl
    | giant => rfl

theorem lowered_marker (cfg : WriterConfig) (io : MarkerIo) {detail : NimStr}
    (h : (detail == FragmentCapReachedDetail) = false) (s : Slot) :
    Lowered s (writeReadTailMarker cfg io detail s) := by
  unfold writeReadTailMarker
  split
  · exact .refl s
  split
  · have hlost := lowered_emit s plain_givenUp
    exact { hlost with isOpen := fun hopen => absurd hopen Bool.false_ne_true }
  · exact lowered_emit s (plain_marker h ..)

theorem lowered_clear (cfg : WriterConfig) (io : MarkerIo) (s : Slot) :
    Lowered s (clearReadingSentinel cfg io s) := by
  unfold clearReadingSentinel
  split
  · exact .refl s
  · have hmarked := lowered_marker cfg io sentinel_details.2 s
    exact { hmarked with }

theorem lowered_mark (cfg : WriterConfig) (io : MarkerIo) (record : MonitorRecord) (s : Slot) :
    Lowered s (markReadingSentinel cfg io record s) := by
  unfold markReadingSentinel
  split
  · exact .refl s
  split
  · exact .refl s
  split
  · exact .refl s
  · have hmarked := lowered_marker cfg io sentinel_details.1 s
    exact { hmarked with }

/-- The first cap marker of a log. -/
theorem records_of_capMarker {log : List SlotEvent} (hnone : capMarkers log = 0) {e : SlotEvent}
    (he : e.isCapMarker = true) :
    recordBytes (log ++ [e]) = recordBytes log ∧ capMarkers (log ++ [e]) = 1 ∧
      lateBytes (log ++ [e]) = 0 := by
  have hmarker : e.isMarker = true := by
    cases e with
    | wrote kind slotOpen bytes reached =>
      cases kind with
      | marker detail => rfl
      | batch => exact absurd he Bool.false_ne_true
      | giant => exact absurd he Bool.false_ne_true
    | buffered slotOpen r => exact absurd he Bool.false_ne_true
    | closed => exact absurd he Bool.false_ne_true
    | givenUp => exact absurd he Bool.false_ne_true
  have hrecord : recordBytes [e] = 0 := by
    rw [recordBytes_singleton, SlotEvent.recordBytes, if_pos hmarker]
  refine ⟨?_, ?_, ?_⟩
  · rw [recordBytes_append, hrecord, Nat.add_zero]
  · rw [capMarkers_append, hnone, capMarkers, List.countP_singleton, if_pos he]
  · rw [lateBytes_append log hrecord (by rw [lateBytes, if_pos he]; rfl)]
    exact lateBytes_eq_zero hnone

/-- **The account of bytes in the file**: the fragment stays below its cap, or is capped. -/
theorem Counted.account (h : Counted cfg key written s) (hopen : s.isOpen = true)
    (hsmall : written ≤ FragmentBatchBufLen + F) {io : AccountIo}
    (hcap : cfg.fragmentByteCap ≤ s.fragmentBytes + written →
      io.cap.Reaches cfg key FragmentCapReachedDetail) :
    CapInv cfg key F (accountFragmentBytes cfg io written s) := by
  unfold accountFragmentBytes
  rw [if_neg (by simp [h.overCap, hopen])]
  simp only
  split
  · rename_i hbelow
    exact .inl { h with owned := .inl (h.owns hopen), bytes := h.bytes, below := hbelow }
  rename_i habove
  have hpast : cfg.fragmentByteCap ≤ s.fragmentBytes + written := Nat.not_lt.mp habove
  obtain ⟨hhandle, hwhole⟩ := hcap hpast
  have hmarked : writeReadTailMarker cfg io.cap FragmentCapReachedDetail
      { s with fragmentBytes := s.fragmentBytes + written } =
      { s with fragmentBytes := s.fragmentBytes + written }.emit
        (.wrote (.marker FragmentCapReachedDetail) true
          (encodeFrame (s.marker cfg FragmentCapReachedDetail io.cap.ctx)) io.cap.reached) :=
    writeReadTailMarker_open (s := { s with fragmentBytes := s.fragmentBytes + written }) hopen
      hhandle FragmentCapReachedDetail
  rw [hmarked]
  obtain ⟨hrecords, hcaps, hlate⟩ := records_of_capMarker h.capMarkers
    (e := .wrote (.marker FragmentCapReachedDetail) true
      (encodeFrame (s.marker cfg FragmentCapReachedDetail io.cap.ctx)) io.cap.reached) (by
    rw [SlotEvent.isCapMarker, beq_self_eq_true, Bool.true_and, decide_eq_true_iff, Slot.marker,
      h.owns hopen]
    exact hwhole)
  -- what the sentinel's committed marker and the close add is plain
  have hrest := (lowered_clear cfg io.committed
    { { s with fragmentBytes := s.fragmentBytes + written }.emit
      (.wrote (.marker FragmentCapReachedDetail) true
        (encodeFrame (s.marker cfg FragmentCapReachedDetail io.cap.ctx)) io.cap.reached) with
      overCap := true }).trans (lowered_emit _ plain_closed)
  have htotal := hrest.records.recordBytes.trans (hrecords.trans h.bytes)
  have hbelow := h.below
  refine .inr ⟨hrest.key.trans (h.owns hopen), rfl, hrest.overCap, ?_, ?_,
    hrest.records.capMarkers.trans hcaps, hrest.records.lateBytes.trans hlate⟩
  · exact hpast.trans (Nat.le_of_eq htotal.symm)
  · refine (Nat.le_of_eq htotal).trans ?_
    omega

theorem batch_length (h : s.batchLen ≤ FragmentBatchBufLen) : s.batch.length = s.batchLen := by
  rw [Slot.batch, List.length_take, s.batchBuf.size, Nat.min_eq_left h]

/-- Record bytes that have all reached the file wait for the account. -/
theorem Counted.wrote (h : Counted cfg key 0 s) {kind : WriteKind}
    (hkind : ∀ detail, kind ≠ .marker detail) {bytes : List UInt8} {reached : Nat}
    (hwhole : bytes.length ≤ reached) :
    Counted cfg key bytes.length (s.emit (.wrote kind true bytes reached)) := by
  have hrecord : recordBytes [SlotEvent.wrote kind true bytes reached] = bytes.length := by
    rw [recordBytes_singleton, SlotEvent.recordBytes, SlotEvent.fileBytes, Nat.min_eq_right hwhole]
    cases kind with
    | marker detail => exact absurd rfl (hkind detail)
    | batch => rfl
    | giant => rfl
  refine { h with bytes := ?_, capMarkers := ?_ }
  · rw [Slot.emit, recordBytes_append, hrecord, h.bytes]
    rfl
  · rw [Slot.emit, capMarkers_append, h.capMarkers]
    cases kind with
    | marker detail => exact absurd rfl (hkind detail)
    | batch => rfl
    | giant => rfl

/-- **A steady flush** keeps the fragment counted, or caps it. -/
theorem Counted.flush (h : Counted cfg key 0 s) {io : FlushIo} (hsteady : io.Steady cfg key s) :
    CapInv cfg key F (flushFragmentBatch cfg io s).1 := by
  unfold flushFragmentBatch
  split
  · exact .inl h
  rename_i hnonempty
  rw [Bool.or_eq_true, not_or, Bool.not_eq_true', Bool.not_eq_false, beq_iff_eq] at hnonempty
  obtain ⟨hopen, hne⟩ := hnonempty
  split
  · have hlost := lowered_emit s plain_givenUp
    exact .inl (h.lower { hlost with isOpen := fun hstill => absurd hstill Bool.false_ne_true })
  rename_i hhandle
  obtain ⟨hall, hthrough⟩ := hsteady hopen (Nat.pos_of_ne_zero hne) (by simpa using hhandle)
  have hnone (hnot : io.write.whole s.batchLen = false) :
      Lowered s (s.emit (.wrote .batch s.isOpen s.batch io.write.reached)) :=
    lowered_emit s (plain_wrote (by simp) _ (.inr (hall.resolve_left (by simp [hnot]))))
  simp only
  split
  · rename_i hraised
    exact .inl (h.lower (hnone (by simp [WriteOutcome.whole, hraised])))
  rename_i hraised
  split
  · rename_i hshort
    have hlow := hnone (by simp [WriteOutcome.whole, hshort])
    exact .inl (h.lower { hlow with batchLen := Nat.zero_le _ })
  rename_i hlong
  have hwhole : io.write.whole s.batchLen = true := by
    simp [WriteOutcome.whole, hraised, Nat.not_lt.mp hlong]
  obtain ⟨hcommitted, hcap⟩ := hthrough hwhole
  have hlen := batch_length h.batchLen
  have hwrote : Counted cfg key s.batchLen
      { s.emit (.wrote .batch s.isOpen s.batch io.write.reached) with batchLen := 0 } := by
    have hemit : Counted cfg key s.batch.length
        (s.emit (.wrote .batch true s.batch io.write.reached)) :=
      h.wrote (by simp) (hlen.trans_le (Nat.not_lt.mp hlong))
    rw [hlen] at hemit
    rw [hopen]
    exact { hemit with batchLen := Nat.zero_le _ }
  obtain ⟨-, hbytes, hlive⟩ := clear_fields cfg io.committed
    { s.emit (.wrote .batch s.isOpen s.batch io.write.reached) with batchLen := 0 }
  refine (hwrote.lower (lowered_clear cfg io.committed _)).account (hlive.mpr ⟨hopen, hcommitted⟩)
    (h.batchLen.trans (by omega)) ?_
  rw [hbytes]
  exact hcap

/-- A flush accounts its batch at most. -/
theorem flush_fragmentBytes_le (cfg : WriterConfig) (io : FlushIo) (s : Slot) :
    (flushFragmentBatch cfg io s).1.fragmentBytes ≤ s.fragmentBytes + s.held := by
  have haccount (io : AccountIo) (written : Nat) (t : Slot) :
      (accountFragmentBytes cfg io written t).fragmentBytes ≤ t.fragmentBytes + written := by
    unfold accountFragmentBytes
    split
    · exact Nat.le_add_right _ _
    simp only
    split
    · exact Nat.le_refl _
    · obtain ⟨-, hcleared, -⟩ := clear_fields cfg io.committed
        { writeReadTailMarker cfg io.cap FragmentCapReachedDetail
          { t with fragmentBytes := t.fragmentBytes + written } with overCap := true }
      refine Nat.le_of_eq (hcleared.trans ?_)
      unfold writeReadTailMarker
      split
      · rfl
      · split <;> rfl
  unfold flushFragmentBatch
  split
  · exact Nat.le_add_right _ _
  rename_i hnonempty
  rw [Bool.or_eq_true, not_or, Bool.not_eq_true', Bool.not_eq_false] at hnonempty
  split
  · exact Nat.le_add_right _ _
  simp only
  split
  · exact Nat.le_add_right _ _
  split
  · exact Nat.le_add_right _ _
  · obtain ⟨-, hcleared, -⟩ := clear_fields cfg io.committed
      { s.emit (.wrote .batch s.isOpen s.batch io.write.reached) with batchLen := 0 }
    have hbytes := haccount io.account s.batchLen (clearReadingSentinel cfg io.committed
      { s.emit (.wrote .batch s.isOpen s.batch io.write.reached) with batchLen := 0 })
    have hheld : s.held = s.batchLen := by rw [Slot.held, if_pos hnonempty.1]
    rw [hcleared] at hbytes
    rw [hheld]
    exact hbytes

/-! ## 5. The other operations -/

/-- **A steady large frame.**  In a slot that its own flush has capped it reaches no file. -/
theorem CapInv.giant (h : CapInv cfg key F s) {io : AppendIo} {record : MonitorRecord}
    (hF : (encodeFrame record).length ≤ F)
    (hall : AllOrNone io.direct (encodeFrame record).length)
    (hcap : io.direct.whole (encodeFrame record).length = true →
      cfg.fragmentByteCap ≤ s.fragmentBytes + (encodeFrame record).length →
        io.account.cap.Reaches cfg key FragmentCapReachedDetail) :
    CapInv cfg key F (writeGiantFrame cfg io record s).1 := by
  have hnone (hnot : io.direct.whole (encodeFrame record).length = false) :
      Lowered s (s.emit (.wrote .giant s.isOpen (encodeFrame record) io.direct.reached)) :=
    lowered_emit s (plain_wrote (by simp) _ (.inr (hall.resolve_left (by simp [hnot]))))
  unfold writeGiantFrame
  simp only
  split
  · rename_i hraised
    exact h.lower (hnone (by simp [WriteOutcome.whole, hraised]))
  rename_i hraised
  split
  · rename_i hshort
    exact h.lower (hnone (by simp [WriteOutcome.whole, hshort]))
  rename_i hlong
  cases hopen : s.isOpen with
  | false =>
    have hlow : Lowered s (s.emit (.wrote .giant false (encodeFrame record) io.direct.reached)) :=
      lowered_emit s (plain_wrote (by simp) _ (.inl rfl))
    rw [accountFragmentBytes, if_pos (by simp [Slot.emit, hopen])]
    exact h.lower hlow
  | true =>
    rcases h with hcounted | hcapped
    · have hwrote : Counted cfg key (encodeFrame record).length
          (s.emit (.wrote .giant true (encodeFrame record) io.direct.reached)) :=
        hcounted.wrote (by simp) (Nat.not_lt.mp hlong)
      exact hwrote.account hopen (hF.trans (by omega)) (hcap (by
        simp [WriteOutcome.whole, hraised, Nat.not_lt.mp hlong]))
    · exact absurd hopen (by simp [hcapped.isOpen])

/-- A record in the batch is in no file yet. -/
theorem CapInv.push (h : CapInv cfg key F s) (io : AppendIo) (record : MonitorRecord)
    (hroom : s.batchLen ≤ FragmentBatchBufLen) :
    CapInv cfg key F (pushFrame cfg io record s).1 := by
  unfold pushFrame
  cases hstore : inlineEncode record ⟨s.batchBuf, s.batchLen⟩ with
  | none => exact h
  | some cursor =>
    have hinside : cursor.pos ≤ FragmentBatchBufLen := by
      rw [inlineEncode_eq] at hstore
      exact putAll_inside hroom hstore
    have hlow := (lowered_emit { s with batchBuf := cursor.buf, batchLen := cursor.pos }
      (plain_buffered s.isOpen record)).trans (lowered_mark cfg io.pending record _)
    rcases h with hcounted | hcapped
    · have hstored : Counted cfg key 0 { s with batchBuf := cursor.buf, batchLen := cursor.pos } :=
        { hcounted with owned := hcounted.owned, batchLen := hinside }
      exact .inl (hstored.lower hlow)
    · have hstored : Capped cfg key F { s with batchBuf := cursor.buf, batchLen := cursor.pos } :=
        { hcapped with key := hcapped.key }
      exact .inr (hstored.lower hlow)

/-- **A steady append behind the open fragment.** -/
theorem Counted.appendToOpen (h : Counted cfg key 0 s) {io : AppendIo} {record : MonitorRecord}
    (hopen : s.isOpen = true) (hF : (encodeFrame record).length ≤ F)
    (hflush : flushesFirst io record s = true → io.flush.Steady cfg key s)
    (hgiant : FragmentBatchBufLen < inlineFrameLen record → io.GiantSteady cfg key s record) :
    CapInv cfg key F (appendToOpen cfg io record s).1 := by
  have hbytes := flush_fragmentBytes_le cfg io.flush s
  have hflushed (hfirst : flushesFirst io record s = true) :
      CapInv cfg key F (flushFragmentBatch cfg io.flush s).1 :=
    h.flush (hflush hfirst)
  rcases appendToOpen_cases cfg io record s with ⟨s₁, e, hfirst, hraised, hresult⟩ |
    ⟨s₁, hprep, hresult⟩
  · have hinv := hflushed hfirst
    rw [hraised] at hinv
    rw [hresult]
    exact hinv
  obtain ⟨hinv, hroom, hgrown⟩ : CapInv cfg key F s₁ ∧ s₁.batchLen ≤ FragmentBatchBufLen ∧
      s₁.fragmentBytes ≤ s.fragmentBytes + s.held := by
    cases hprep with
    | asItWas => exact ⟨.inl h, h.batchLen, Nat.le_add_right _ _⟩
    | flushed hfirst hdone =>
      have hinv := hflushed hfirst
      have hempty := flush_batchLen cfg hopen (congrArg Prod.snd hdone)
      rw [hdone] at hinv hempty hbytes
      exact ⟨hinv, hempty.trans_le (Nat.zero_le _), hbytes⟩
  rw [hresult]
  split
  · rename_i hlarge
    obtain ⟨hall, hcap⟩ := hgiant hlarge
    exact hinv.giant hF hall fun hwhole hpast => hcap hwhole (by omega)
  · exact hinv.push io record hroom

/-- A fragment that cannot be opened leaves the slot as it is. -/
theorem openFragmentSlot_failed {openOk : Bool} {e : WriterRaise}
    (h : openFragmentSlot cfg openOk key s = (s', some e)) : s' = s := by
  unfold openFragmentSlot at h
  split at h
  · exact (congrArg Prod.fst h).symm
  · split at h
    · exact (congrArg Prod.fst h).symm
    · exact absurd (congrArg Prod.snd h) (by simp)

/-- Reopening the fragment keeps its budget. -/
theorem Counted.opened_fragmentBytes (h : Counted cfg key 0 s) (hopened : Opened key s s') :
    s'.fragmentBytes = s.fragmentBytes := by
  rw [hopened.fragmentBytes]
  split
  · rfl
  · rename_i hother
    exact (h.owned.resolve_left hother).2.symm

theorem Counted.opened (h : Counted cfg key 0 s) (hopened : Opened key s s') :
    Counted cfg key 0 s' := by
  have hbudget := h.opened_fragmentBytes hopened
  refine ⟨.inl hopened.takesKey, ?_, ?_, ?_, ?_, ?_⟩
  · rw [hopened.log, hbudget]
    exact h.bytes
  · rw [hbudget]
    exact h.below
  · rw [hopened.overCap, h.overCap, Bool.and_false]
  · rw [hopened.batchLen]
    exact Nat.zero_le _
  · rw [hopened.log]
    exact h.capMarkers

/-- **A steady append of the identity.** -/
theorem CapInv.append (h : CapInv cfg key F s) {io : AppendIo} {fragmentDir : NimStr}
    {record : MonitorRecord} (hkey : (fragmentDir, record.osPid, record.threadId) = key)
    (hF : (encodeFrame record).length ≤ F)
    (hsteady : (SlotOp.append io fragmentDir record).Steady cfg key s) :
    CapInv cfg key F (appendFragmentRecord cfg io fragmentDir record s).1 := by
  obtain ⟨hflush, hgiant⟩ := hsteady
  rcases h with hcounted | hcapped
  · rcases appendFragmentRecord_cases cfg io fragmentDir record s with
      ⟨-, -, hresult⟩ | ⟨-, -, hresult⟩ | ⟨hopen, hhandle, -, -, hresult⟩ | ⟨hother, hreopened⟩
    · rw [hresult]
      exact .inl hcounted
    · have hlost := lowered_emit s plain_givenUp
      rw [hresult]
      exact .inl (hcounted.lower
        { hlost with isOpen := fun hstill => absurd hstill Bool.false_ne_true })
    · rw [hresult]
      exact hcounted.appendToOpen hopen hF (hflush hopen hhandle) hgiant
    · -- an open slot has the identity's key already
      have hclosed : s.isOpen = false := Bool.not_eq_true _ ▸ fun hopen =>
        hother hopen ((hcounted.owns hopen).trans hkey.symm)
      have hleave : leaveFragment cfg io s = s := by
        rw [leaveFragment, hclosed, if_neg Bool.false_ne_true]
      rw [hleave, hkey] at hreopened
      rcases hreopened with ⟨s₁, e, hopened, hresult⟩ | ⟨s₁, hopened, hresult⟩
      · rw [hresult, openFragmentSlot_failed hopened]
        exact .inl hcounted
      · have hfields := openFragmentSlot_fields cfg hopened
        rw [hresult]
        -- the batch of a fragment just opened is empty
        refine (hcounted.opened hfields).appendToOpen hfields.isOpen hF
          (fun _ _ hpos => absurd hfields.batchLen (Nat.ne_of_gt hpos)) fun hlarge => ?_
        obtain ⟨hall, hcap⟩ := hgiant hlarge
        have hheld : s₁.held = 0 := by rw [Slot.held, hfields.batchLen, ite_self]
        have hbudget := hcounted.opened_fragmentBytes hfields
        exact ⟨hall, fun hwhole hpast => hcap hwhole (by omega)⟩
  · have hdropped : appendFragmentRecord cfg io fragmentDir record s = (s, none) := by
      rw [appendFragmentRecord, hkey]
      simp only [hcapped.overCap, hcapped.key, decide_true, Bool.and_self, if_true]
    rw [hdropped]
    exact .inr hcapped

/-- **A steady close that keeps the identity.** -/
theorem CapInv.close (h : CapInv cfg key F s) {io : CloseIo}
    (hsteady : io.handleOk = true → io.flush.Steady cfg key s) :
    CapInv cfg key F (closeFragmentSlot cfg true io s) := by
  unfold closeFragmentSlot
  split
  · exact h
  rename_i hopen
  rcases h with hcounted | hcapped
  · split
    · have hlost := lowered_emit s plain_givenUp
      exact .inl (hcounted.lower
        { hlost with isOpen := fun hstill => absurd hstill Bool.false_ne_true })
    rename_i hhandle
    have hflushed := hcounted.flush (F := F) (hsteady (by simpa using hhandle))
    have hended (t : Slot) : Lowered t (if t.isOpen then t.emit .closed else t) := by
      split
      · exact lowered_emit t plain_closed
      · exact .refl t
    have hlow := (lowered_clear cfg io.committed
      (flushFragmentBatch cfg io.flush s).1).trans (hended _)
    exact hflushed.lower { hlow with
      isOpen := fun hstill => absurd hstill Bool.false_ne_true
      batchLen := Nat.zero_le _
      overCap := (Bool.true_and _).trans hlow.overCap }
  · exact absurd hcapped.isOpen (by simpa using hopen)

theorem CapInv.sweep (h : CapInv cfg key F s) {io : SweepIo}
    (hsteady : s.isOpen = true → 0 < s.batchLen → io.write.reached = 0) :
    CapInv cfg key F (sweepSlot io s) := by
  unfold sweepSlot
  split
  · rename_i hheld
    rw [Bool.and_eq_true, decide_eq_true_iff] at hheld
    have hwrote : Lowered s (s.emit (.wrote .batch s.isOpen s.batch io.write.reached)) :=
      lowered_emit s (plain_wrote (by simp) _ (.inr (hsteady hheld.1 hheld.2)))
    simp only
    split
    · have hmarker := lowered_emit (s.emit (.wrote .batch s.isOpen s.batch io.write.reached))
        (plain_marker sentinel_details.2 s.isOpen
          (s.committedFrame.bytes.take s.committedFrameLen) io.committed.reached)
      exact h.lower { hwrote.trans hmarker with batchLen := Nat.zero_le _ }
    · exact h.lower { hwrote with batchLen := Nat.zero_le _ }
  · exact h

/-! ## 6. What a step writes in markers -/

/-- The markers that have been written, and those that the slot may still write without arming the
sentinel again. -/
def markerBudget (s : Slot) : Nat :=
  markerCount s.log + s.readingSentinelActive.toNat + (!s.overCap).toNat

theorem markerCount_le_budget (s : Slot) : markerCount s.log ≤ markerBudget s := by
  unfold markerBudget
  omega

theorem budget_emit (s : Slot) {e : SlotEvent} (he : e.isMarker = false) :
    markerBudget (s.emit e) = markerBudget s := by
  have hcount : markerCount (s.log ++ [e]) = markerCount s.log := by
    rw [markerCount, List.countP_append, List.countP_singleton, he, if_neg Bool.false_ne_true]
    rfl
  show markerCount (s.log ++ [e]) + _ + _ = _
  rw [hcount]
  rfl

/-- One marker at most, and nothing else that the budget reads. -/
theorem budget_marker (cfg : WriterConfig) (io : MarkerIo) (detail : NimStr) (s : Slot) :
    markerCount (writeReadTailMarker cfg io detail s).log ≤ markerCount s.log + 1 ∧
      (writeReadTailMarker cfg io detail s).readingSentinelActive = s.readingSentinelActive ∧
      (writeReadTailMarker cfg io detail s).overCap = s.overCap := by
  have hone (e : SlotEvent) : markerCount (s.log ++ [e]) ≤ markerCount s.log + 1 := by
    rw [markerCount, List.countP_append]
    exact Nat.add_le_add_left List.countP_le_length _
  unfold writeReadTailMarker
  split
  · exact ⟨Nat.le_succ _, rfl, rfl⟩
  split
  · exact ⟨hone _, rfl, rfl⟩
  · exact ⟨hone _, rfl, rfl⟩

theorem budget_clear (cfg : WriterConfig) (io : MarkerIo) (s : Slot) :
    markerBudget (clearReadingSentinel cfg io s) ≤ markerBudget s := by
  unfold clearReadingSentinel
  split
  · exact Nat.le_refl _
  · rename_i hactive
    obtain ⟨hcount, -, hcap⟩ := budget_marker cfg io ReadTailCommittedDetail s
    have hone : s.readingSentinelActive.toNat = 1 := by simpa using hactive
    simp only [markerBudget, hcap, hone, Bool.toNat_false]
    omega

/-- The markers that an emit writes: its own pending one, and the committed one it is good for. -/
theorem budget_mark (cfg : WriterConfig) (io : MarkerIo) (record : MonitorRecord) (s : Slot) :
    markerBudget (markReadingSentinel cfg io record s) ≤
      markerBudget s + 2 * (sentinelGuards record && !s.readingSentinelActive).toNat := by
  unfold markReadingSentinel
  split
  · exact Nat.le_add_right _ _
  rename_i hkind
  split
  · exact Nat.le_add_right _ _
  rename_i hguarded
  split
  · exact Nat.le_add_right _ _
  rename_i hready
  obtain ⟨hcount, -, hcap⟩ := budget_marker cfg io ReadTailPendingDetail s
  have hactive : s.readingSentinelActive = false := by
    rw [Bool.or_eq_true, not_or, Bool.not_eq_true] at hready
    exact hready.1
  have hguards : sentinelGuards record = true := by
    rw [sentinelGuards, Bool.and_eq_true]
    exact ⟨by simpa using hkind, by simpa using hguarded⟩
  simp only [markerBudget, hcap, hactive, hguards, Bool.not_false, Bool.and_self, Bool.toNat_true,
    Bool.toNat_false]
  omega

/-- The cap's marker is written once. -/
theorem budget_account (cfg : WriterConfig) (io : AccountIo) (written : Nat) (s : Slot) :
    markerBudget (accountFragmentBytes cfg io written s) ≤ markerBudget s := by
  unfold accountFragmentBytes
  split
  · exact Nat.le_refl _
  rename_i hlive
  simp only
  split
  · exact Nat.le_refl _
  have hcap (t : Slot) (hbelow : t.overCap = false) : markerBudget { writeReadTailMarker cfg io.cap
      FragmentCapReachedDetail t with overCap := true } ≤ markerBudget t := by
    obtain ⟨hcount, hactive, -⟩ := budget_marker cfg io.cap FragmentCapReachedDetail t
    simp only [markerBudget, hactive, hbelow, Bool.not_true, Bool.not_false, Bool.toNat_true,
      Bool.toNat_false]
    omega
  have hbelow : s.overCap = false := by
    rw [Bool.or_eq_true, not_or, Bool.not_eq_true] at hlive
    exact hlive.1
  have hcounted := hcap { s with fragmentBytes := s.fragmentBytes + written } hbelow
  refine Nat.le_trans ?_ ((budget_clear cfg io.committed _).trans hcounted)
  -- the handle is closed, and no sentinel is armed any more
  refine Nat.le_trans (Nat.le_of_eq (budget_emit _ rfl)) ?_
  simp only [markerBudget, Bool.toNat_false]
  omega

theorem budget_flush (cfg : WriterConfig) (io : FlushIo) (s : Slot) :
    markerBudget (flushFragmentBatch cfg io s).1 ≤ markerBudget s := by
  have hwrote := budget_emit s (e := .wrote .batch s.isOpen s.batch io.write.reached) rfl
  unfold flushFragmentBatch
  split
  · exact Nat.le_refl _
  split
  · exact Nat.le_of_eq (budget_emit s (e := .givenUp) rfl)
  simp only
  split
  · exact Nat.le_of_eq hwrote
  split
  · exact Nat.le_of_eq hwrote
  · exact (budget_account cfg io.account _ _).trans
      ((budget_clear cfg io.committed _).trans (Nat.le_of_eq hwrote))

theorem budget_push (cfg : WriterConfig) (io : AppendIo) (record : MonitorRecord) (s : Slot) :
    markerBudget (pushFrame cfg io record s).1 ≤
      markerBudget s + 2 * (sentinelGuards record && !s.readingSentinelActive).toNat := by
  unfold pushFrame
  cases inlineEncode record ⟨s.batchBuf, s.batchLen⟩ with
  | none => exact Nat.le_add_right _ _
  | some cursor =>
    have hbuffered := budget_emit { s with batchBuf := cursor.buf, batchLen := cursor.pos }
      (e := .buffered s.isOpen record) rfl
    have hmarked := budget_mark cfg io.pending record
      ({ s with batchBuf := cursor.buf, batchLen := cursor.pos }.emit (.buffered s.isOpen record))
    rw [hbuffered] at hmarked
    exact hmarked

theorem budget_giant (cfg : WriterConfig) (io : AppendIo) (record : MonitorRecord) (s : Slot) :
    markerBudget (writeGiantFrame cfg io record s).1 ≤ markerBudget s := by
  have hwrote := budget_emit s (e := .wrote .giant s.isOpen (encodeFrame record) io.direct.reached)
    rfl
  unfold writeGiantFrame
  simp only
  split
  · exact Nat.le_of_eq hwrote
  split
  · exact Nat.le_of_eq hwrote
  · exact (budget_account cfg io.account _ _).trans (Nat.le_of_eq hwrote)

theorem budget_appendToOpen (cfg : WriterConfig) (io : AppendIo) (record : MonitorRecord)
    (s : Slot) : markerBudget (appendToOpen cfg io record s).1 ≤ markerBudget s +
      2 * (sentinelGuards record &&
        (!s.readingSentinelActive || flushesFirst io record s)).toNat := by
  have hflushed := budget_flush cfg io.flush s
  rcases appendToOpen_cases cfg io record s with ⟨s₁, e, -, hflush, hresult⟩ |
    ⟨s₁, hprep, hresult⟩
  · rw [hflush] at hflushed
    rw [hresult]
    exact Nat.le_add_right_of_le hflushed
  rw [hresult]
  have hprepared : markerBudget s₁ ≤ markerBudget s := by
    cases hprep with
    | asItWas => exact Nat.le_refl _
    | flushed _ hflush => rwa [hflush] at hflushed
  split
  · exact Nat.le_add_right_of_le ((budget_giant cfg io record s₁).trans hprepared)
  · have hpushed := budget_push cfg io record s₁
    cases hprep with
    | asItWas hfirst =>
      rw [hfirst, Bool.or_false]
      exact hpushed
    | flushed hfirst =>
      have hatMost := Bool.toNat_le (sentinelGuards record && !s₁.readingSentinelActive)
      rw [hfirst, Bool.or_true, Bool.and_true]
      cases hguards : sentinelGuards record with
      | false =>
        rw [hguards] at hpushed
        exact hpushed.trans (Nat.add_le_add_right hprepared _)
      | true =>
        rw [Bool.toNat_true]
        omega

theorem budget_close (cfg : WriterConfig) (io : CloseIo) (s : Slot) :
    markerBudget (closeFragmentSlot cfg true io s) ≤ markerBudget s := by
  unfold closeFragmentSlot
  split
  · exact Nat.le_refl _
  split
  · exact Nat.le_of_eq (budget_emit s (e := .givenUp) rfl)
  have hcleared := (budget_clear cfg io.committed (flushFragmentBatch cfg io.flush s).1).trans
    (budget_flush cfg io.flush s)
  have hended (t : Slot) : markerBudget (if t.isOpen then t.emit .closed else t) =
      markerBudget t := by
    split
    · exact budget_emit t (e := .closed) rfl
    · rfl
  have hclosed := (Nat.le_of_eq (hended _)).trans hcleared
  simp only [markerBudget, Bool.true_and, Bool.toNat_false] at hclosed ⊢
  omega

/-- **What a steady step writes in markers.** -/
theorem CapInv.spends (h : CapInv cfg key F s) {op : SlotOp} (hid : op.OfIdentity key)
    (hsteady : op.Steady cfg key s) :
    markerBudget (s.step cfg op) ≤ markerBudget s + 2 * (op.arms s).toNat := by
  cases op with
  | flush io => exact Nat.le_add_right_of_le (budget_flush cfg io s)
  | close retainIdentity io =>
    have hretain : retainIdentity = true := hid
    rw [hretain]
    exact Nat.le_add_right_of_le (budget_close cfg io s)
  | forkDiscard => exact absurd hid id
  | sweep io =>
    refine Nat.le_add_right_of_le ?_
    have hwrote := budget_emit s (e := .wrote .batch s.isOpen s.batch io.write.reached) rfl
    simp only [Slot.step, sweepSlot]
    split
    · rename_i hheld
      rw [Bool.and_eq_true, decide_eq_true_iff] at hheld
      -- a batch of which nothing arrives is followed by no marker
      have hshort : io.write.whole s.batchLen = false := by
        simp [WriteOutcome.whole, hsteady hheld.1 hheld.2, Nat.ne_of_gt hheld.2]
      simp only [hshort, Bool.false_and, Bool.false_eq_true, if_false]
      exact Nat.le_of_eq hwrote
    · exact Nat.le_refl _
  | append io fragmentDir record =>
    have hkey : (fragmentDir, record.osPid, record.threadId) = key := hid
    simp only [Slot.step, SlotOp.arms]
    rcases appendFragmentRecord_cases cfg io fragmentDir record s with
      ⟨-, -, hresult⟩ | ⟨-, -, hresult⟩ | ⟨hopen, -, -, -, hresult⟩ | ⟨hother, hreopened⟩
    · rw [hresult]
      exact Nat.le_add_right _ _
    · rw [hresult]
      exact Nat.le_add_right_of_le (Nat.le_of_eq (budget_emit s (e := .givenUp) rfl))
    · rw [hresult, hopen, Bool.not_true, Bool.false_or]
      exact budget_appendToOpen cfg io record s
    · -- the identity's fragment is opened again, over its cap no more than it was
      have hclosed : s.isOpen = false := by
        rcases h with hcounted | hcapped
        · exact Bool.not_eq_true _ ▸ fun hopen =>
            hother hopen ((hcounted.owns hopen).trans hkey.symm)
        · exact hcapped.isOpen
      have hsame : s.overCap = true → s.key = key := by
        rcases h with hcounted | hcapped
        · exact fun hover => absurd hover (by simp [hcounted.overCap])
        · exact fun _ => hcapped.key
      have hleave : leaveFragment cfg io s = s := by
        rw [leaveFragment, hclosed, if_neg Bool.false_ne_true]
      rw [hleave, hkey] at hreopened
      rcases hreopened with ⟨s₁, e, hopened, hresult⟩ | ⟨s₁, hopened, hresult⟩
      · rw [hresult, openFragmentSlot_failed hopened]
        exact Nat.le_add_right _ _
      · have hfields := openFragmentSlot_fields cfg hopened
        have hover : s₁.overCap = s.overCap := by
          rw [hfields.overCap]
          cases hcap : s.overCap with
          | false => exact Bool.and_false _
          | true => rw [Bool.and_true, decide_eq_true_iff, hsame hcap]
        have hbudget : markerBudget s₁ ≤ markerBudget s := by
          simp only [markerBudget, hover, hfields.log, hfields.readingSentinelActive,
            Bool.toNat_false]
          omega
        have happended := budget_appendToOpen cfg io record s₁
        rw [hfields.readingSentinelActive, Bool.not_false, Bool.true_or] at happended
        rw [hresult, hclosed, Bool.not_false, Bool.true_or, Bool.true_or]
        exact happended.trans (Nat.add_le_add_right hbudget _)

/-! ## 7. Runs -/

/-- **The step lemma.** -/
theorem CapInv.step (h : CapInv cfg key F s) {op : SlotOp} (hid : op.OfIdentity key)
    (hF : largestFrame [op] ≤ F) (hsteady : op.Steady cfg key s) :
    CapInv cfg key F (s.step cfg op) := by
  cases op with
  | append io fragmentDir record =>
    exact h.append hid ((Nat.le_max_left _ _).trans hF) hsteady
  | flush io =>
    rcases h with hcounted | hcapped
    · exact hcounted.flush hsteady
    · have hnoop : flushFragmentBatch cfg io s = (s, none) := by
        rw [flushFragmentBatch, if_pos (by simp [hcapped.isOpen])]
      rw [Slot.step, hnoop]
      exact .inr hcapped
  | close retainIdentity io =>
    have hretain : retainIdentity = true := hid
    rw [hretain]
    exact h.close hsteady
  | forkDiscard => exact absurd hid id
  | sweep io => exact h.sweep hsteady

theorem largestFrame_cons (op : SlotOp) (rest : List SlotOp) :
    largestFrame (op :: rest) = max (largestFrame [op]) (largestFrame rest) := by
  cases op with
  | append io fragmentDir record => rw [largestFrame, largestFrame, largestFrame, Nat.max_zero]
  | flush io => exact (Nat.zero_max _).symm
  | close retainIdentity io => exact (Nat.zero_max _).symm
  | forkDiscard => exact (Nat.zero_max _).symm
  | sweep io => exact (Nat.zero_max _).symm

/-- **The run lemma.** -/
theorem CapInv.run (ops : List SlotOp) : ∀ {s : Slot}, CapInv cfg key F s →
    (∀ op ∈ ops, op.OfIdentity key) → largestFrame ops ≤ F → SteadyRun cfg key s ops →
    CapInv cfg key F (s.run cfg ops) ∧
      markerBudget (s.run cfg ops) ≤ markerBudget s + 2 * armings cfg s ops := by
  induction ops with
  | nil => exact fun h _ _ _ => ⟨h, Nat.le_refl _⟩
  | cons op rest ih =>
    intro s h hid hF hsteady
    obtain ⟨hop, hrest⟩ := hsteady
    rw [largestFrame_cons, Nat.max_le] at hF
    have hspent := h.spends (hid op List.mem_cons_self) hop
    obtain ⟨hinv, hbudget⟩ := ih (h.step (hid op List.mem_cons_self) hF.1 hop)
      (fun op' hmem => hid op' (List.mem_cons_of_mem op hmem)) hF.2 hrest
    have harmed : armings cfg s (op :: rest) =
        (op.arms s).toNat + armings cfg (s.step cfg op) rest := rfl
    refine ⟨hinv, ?_⟩
    show markerBudget ((s.step cfg op).run cfg rest) ≤ _
    omega

theorem SteadyRun.take (ops : List SlotOp) : ∀ {s : Slot} (n : Nat),
    SteadyRun cfg key s ops → SteadyRun cfg key s (ops.take n) := by
  induction ops with
  | nil => exact fun n _ => by rw [List.take_nil]; trivial
  | cons op rest ih =>
    intro s n h
    cases n with
    | zero => trivial
    | succ n => exact ⟨h.1, ih n h.2⟩

theorem armings_take (ops : List SlotOp) : ∀ {s : Slot} (n : Nat),
    armings cfg s (ops.take n) ≤ armings cfg s ops := by
  induction ops with
  | nil => exact fun n => by rw [List.take_nil]
  | cons op rest ih =>
    intro s n
    cases n with
    | zero => exact Nat.zero_le _
    | succ n => exact Nat.add_le_add_left (ih n) _

/-- What the invariant says about the file. -/
theorem CapInv.capHolds {K : Nat} {ops : List SlotOp} (h : CapInv cfg key (largestFrame ops) s)
    (hcount : markerCount s.log ≤ K) : CapHolds cfg K ops s := by
  have hfile : fileBytes s.log ≤ recordBytes s.log + K * largestMarker s.log :=
    (fileBytes_le s.log).trans (Nat.add_le_add_left (Nat.mul_le_mul_right _ hcount) _)
  rcases h with hcounted | hcapped
  · have hbytes := hcounted.bytes
    have hbelow := hcounted.below
    refine ⟨by omega, fun hpast => ?_, lateBytes_eq_zero hcounted.capMarkers⟩
    rcases hpast with hrecords | hall <;> omega
  · have hbounded := hcapped.bounded
    exact ⟨by omega, fun _ => hcapped.capMarkers, hcapped.lateBytes⟩

end Invariant

/-- **When the byte cap bounds the file**: in every state of every steady run of one identity in
which at most `N` emits arm the sentinel.  Each of them is good for two markers, and the cap has one
of its own. -/
theorem capHolds_of_steadyRun (cfg : WriterConfig) (key : FragmentKey) (N : Nat)
    (ops : List SlotOp) (hid : ∀ op ∈ ops, op.OfIdentity key) (hsteady : SteadyRun cfg key {} ops)
    (harmed : armings cfg {} ops ≤ N) (n : Nat) :
    CapHolds cfg (2 * N + 1) (ops.take n) (Slot.run cfg {} (ops.take n)) := by
  obtain ⟨hinv, hbudget⟩ := CapInv.run (ops.take n) capInv_start
    (fun op hmem => hid op (List.mem_of_mem_take hmem)) (Nat.le_refl _) (hsteady.take ops n)
  have hfewer := @armings_take cfg ops {} n
  have hstart : markerBudget {} = 1 := rfl
  have hcount := markerCount_le_budget (Slot.run cfg {} (ops.take n))
  exact hinv.capHolds (by omega)

def closeDone : CloseIo where
  flush := flushDone
  committed := markerDone

/-- The fragment of a thread whose numbers are zero. -/
def plainKey : FragmentKey := (str "/f", 0, 0)

/-- The fragment directory fits the slot, and the cap marker one write. -/
theorem plainKey_fits : (str "/f").length < FragmentDirBufLen ∧
    (encodeFrame (readTailMarker 0 0 (FragmentCapReachedDetail ++ [] ++ []))).length ≤
      FragmentBatchBufLen := by
  decide +kernel

/-- A flush that goes well is steady, at the cap as well. -/
theorem flushDone_steady {cfg : WriterConfig} (htoken : cfg.fragmentRunToken = []) {s : Slot}
    (hlen : s.batchLen ≤ FragmentBatchBufLen) : flushDone.Steady cfg plainKey s := by
  intro _ _ _
  refine ⟨.inl (decide_eq_true hlen), fun _ => ⟨fun _ => rfl, fun _ => ⟨rfl, ?_⟩⟩⟩
  rw [htoken]
  exact plainKey_fits.2

/-! ## 8. A fragment that outgrows its cap -/

section Cycles

variable {cfg : WriterConfig} {s : Slot} {n : Nat}

theorem clear_armed (hopen : s.isOpen = true) (hactive : s.readingSentinelActive = true)
    {io : MarkerIo} (hhandle : io.handleOk = true) :
    clearReadingSentinel cfg io s =
      { s.emit (.wrote (.marker ReadTailCommittedDetail) true
          (encodeFrame (s.marker cfg ReadTailCommittedDetail io.ctx)) io.reached) with
        readingSentinelActive := false } := by
  rw [clearReadingSentinel, hactive, if_neg (by simp), writeReadTailMarker_open hopen hhandle]

theorem mark_guarded (hopen : s.isOpen = true) (hactive : s.readingSentinelActive = false)
    {io : MarkerIo} (hhandle : io.handleOk = true) {record : MonitorRecord}
    (hkind : kindCarriesCapturedDependency record.kind = true)
    (hguarded : recordSuppressesOnlyADowngrade record = false) :
    markReadingSentinel cfg io record s =
      { s.emit (.wrote (.marker ReadTailPendingDetail) true
          (encodeFrame (s.marker cfg ReadTailPendingDetail io.ctx)) io.reached) with
        readingSentinelActive := true } := by
  rw [markReadingSentinel, hkind, hguarded, if_neg (by simp), if_neg (by simp),
    if_neg (by simp [hopen, hactive]), writeReadTailMarker_open hopen hhandle]

theorem account_below {written : Nat} (hopen : s.isOpen = true) (hcap : s.overCap = false)
    (hbelow : s.fragmentBytes + written < cfg.fragmentByteCap) (io : AccountIo) :
    accountFragmentBytes cfg io written s =
      { s with fragmentBytes := s.fragmentBytes + written } := by
  rw [accountFragmentBytes, if_neg (by simp [hopen, hcap])]
  exact if_pos hbelow

/-- A flush that goes through writes the batch and a committed marker, and accounts the batch. -/
theorem flush_armed {io : FlushIo} (hopen : s.isOpen = true) (hcap : s.overCap = false)
    (hactive : s.readingSentinelActive = true) (hpos : 0 < s.batchLen)
    (hhandle : io.handleOk = true) (hwhole : io.write.whole s.batchLen = true)
    (hcommitted : io.committed.handleOk = true)
    (hbelow : s.fragmentBytes + s.batchLen < cfg.fragmentByteCap) :
    flushFragmentBatch cfg io s =
      ({ (s.emit (.wrote .batch true s.batch io.write.reached)).emit
          (.wrote (.marker ReadTailCommittedDetail) true
            (encodeFrame (s.marker cfg ReadTailCommittedDetail io.committed.ctx))
            io.committed.reached) with
        batchLen := 0
        readingSentinelActive := false
        fragmentBytes := s.fragmentBytes + s.batchLen }, none) := by
  have hcleared := @clear_armed cfg
    { s.emit (.wrote .batch true s.batch io.write.reached) with batchLen := 0 }
    hopen hactive io.committed hcommitted
  simp only [WriteOutcome.whole, Bool.and_eq_true, Bool.not_eq_true', decide_eq_true_iff] at hwhole
  have hnonempty : ¬ ((!s.isOpen || s.batchLen == 0) = true) := by
    rw [hopen, Bool.not_true, Bool.false_or, beq_iff_eq]
    omega
  rw [flushFragmentBatch, if_neg hnonempty, if_neg (by simp [hhandle])]
  simp only
  rw [if_neg (by simp [hwhole.1]), if_neg (by omega), hopen]
  have haccount := @account_below cfg
    { (s.emit (.wrote .batch true s.batch io.write.reached)).emit
        (.wrote (.marker ReadTailCommittedDetail) true
          (encodeFrame (s.marker cfg ReadTailCommittedDetail io.committed.ctx))
          io.committed.reached) with
      batchLen := 0
      readingSentinelActive := false } s.batchLen hopen hcap hbelow io.account
  refine Prod.ext ?_ rfl
  exact (congrArg (accountFragmentBytes cfg io.account s.batchLen) hcleared).trans haccount

/-- A close that goes well. -/
theorem close_done (hopen : s.isOpen = true) (hcap : s.overCap = false)
    (hactive : s.readingSentinelActive = true) (hpos : 0 < s.batchLen)
    (hlen : s.batchLen ≤ FragmentBatchBufLen)
    (hbelow : s.fragmentBytes + s.batchLen < cfg.fragmentByteCap) :
    closeFragmentSlot cfg true closeDone s =
      { ((s.emit (.wrote .batch true s.batch FragmentBatchBufLen)).emit
          (.wrote (.marker ReadTailCommittedDetail) true
            (encodeFrame (s.marker cfg ReadTailCommittedDetail [])) FragmentBatchBufLen)).emit
          .closed with
        isOpen := false
        batchLen := 0
        readingSentinelActive := false
        fragmentBytes := s.fragmentBytes + s.batchLen } := by
  have hflush := @flush_armed cfg s flushDone hopen hcap hactive hpos rfl
    (decide_eq_true hlen) rfl hbelow
  rw [closeFragmentSlot, if_neg (by simp [hopen]), if_neg (by simp [closeDone]),
    show closeDone.flush = flushDone from rfl, hflush]
  simp only
  rw [clearReadingSentinel, if_pos (by simp), if_pos (by simpa [Slot.emit] using hopen)]
  simp only [Slot.emit, hcap]
  rfl

/-- A file read, which the sentinel guards. -/
def guardedRecord : MonitorRecord :=
  { kind := mrFileRead, observationKind := moFileRead, path := str "/a" }

/-- Its frame has 74 bytes. -/
theorem guardedRecord_facts : inlineFrameLen guardedRecord = 74 ∧
    recordSuppressesOnlyADowngrade guardedRecord = false := by
  decide +kernel

theorem guardedRecord_fits : inlineFrameLen guardedRecord ≤ FragmentBatchBufLen := by
  rw [guardedRecord_facts.1]
  decide

/-- What a worker does for one emit: append, and a close that keeps the budget. -/
def emitCycle : List SlotOp := [.append appendDone (str "/f") guardedRecord, .close true closeDone]

def cycles (n : Nat) : List SlotOp := (List.replicate n emitCycle).flatten

def pendingEvent : SlotEvent :=
  .wrote (.marker ReadTailPendingDetail) true
    (encodeFrame (readTailMarker 0 0 ReadTailPendingDetail)) FragmentBatchBufLen

/-- Of the 254 bytes of a cycle the account sees the 74 of the record. -/
def cycleEvents : List SlotEvent :=
  [.buffered true guardedRecord, pendingEvent,
    .wrote .batch true (encodeFrame guardedRecord) FragmentBatchBufLen,
    .wrote (.marker ReadTailCommittedDetail) true
      (encodeFrame (readTailMarker 0 0 ReadTailCommittedDetail)) FragmentBatchBufLen,
    .closed]

theorem cycleEvents_sizes : fileBytes cycleEvents = 254 ∧ largestMarker cycleEvents = 91 := by
  decide +kernel

/-- A slot after `n` cycles.  The budget is the one that the next append finds. -/
structure AfterCycles (n : Nat) (s : Slot) : Prop where
  isOpen : s.isOpen = false
  overCap : s.overCap = false
  budget : (if s.key = plainKey then s.fragmentBytes else 0) = 74 * n
  file : fileBytes s.log = 254 * n
  largest : largestMarker s.log ≤ 91

theorem afterCycles_start : AfterCycles 0 {} :=
  ⟨rfl, rfl, ite_self _, rfl, Nat.zero_le _⟩

theorem largestMarker_append {log log' : List SlotEvent} {m : Nat} (h : largestMarker log ≤ m)
    (h' : largestMarker log' ≤ m) : largestMarker (log ++ log') ≤ m := by
  induction log with
  | nil => exact h'
  | cons e rest ih =>
    have hboth : max e.markerFrameLen (largestMarker rest) ≤ m := h
    rw [Nat.max_le] at hboth
    exact Nat.max_le.mpr ⟨hboth.1, ih hboth.2⟩

/-- The slot between the append and the close of a cycle. -/
structure Armed (n : Nat) (s t : Slot) : Prop where
  isOpen : t.isOpen = true
  key : t.key = plainKey
  overCap : t.overCap = false
  active : t.readingSentinelActive = true
  batchLen : t.batchLen = 74
  batch : t.batch = encodeFrame guardedRecord
  fragmentBytes : t.fragmentBytes = 74 * n
  log : t.log = s.log ++ [.buffered true guardedRecord, pendingEvent]

theorem plain_slotMarker (htoken : cfg.fragmentRunToken = []) (hkey : s.key = plainKey)
    (detail : NimStr) : s.marker cfg detail [] = readTailMarker 0 0 detail := by
  rw [Slot.marker, hkey, htoken, List.append_nil, List.append_nil]
  rfl

theorem AfterCycles.append (h : AfterCycles n s) (htoken : cfg.fragmentRunToken = []) :
    Armed n s (s.step cfg (.append appendDone (str "/f") guardedRecord)) := by
  obtain ⟨s₁, cursor, hopened, hpos, hfilled, hresult⟩ :=
    @append_opens cfg s appendDone (str "/f") guardedRecord h.isOpen h.overCap rfl
      plainKey_fits.1 guardedRecord_fits
  have hfields := openFragmentSlot_fields cfg hopened
  have hmarked := @mark_guarded cfg ({ s₁ with batchBuf := cursor.buf, batchLen := cursor.pos }.emit
    (.buffered s₁.isOpen guardedRecord)) hfields.isOpen hfields.readingSentinelActive
    appendDone.pending rfl guardedRecord (by decide) guardedRecord_facts.2
  have hmarker := @plain_slotMarker cfg
    ({ s₁ with batchBuf := cursor.buf, batchLen := cursor.pos }.emit
      (.buffered s₁.isOpen guardedRecord)) htoken hfields.takesKey ReadTailPendingDetail
  rw [Slot.step, hresult, hmarked, show appendDone.pending.ctx = [] from rfl, hmarker]
  refine ⟨hfields.isOpen, hfields.takesKey, ?_, rfl, hpos.trans guardedRecord_facts.1, hfilled,
    ?_, ?_⟩
  · exact hfields.overCap.trans (by rw [h.overCap, Bool.and_false])
  · exact hfields.fragmentBytes.trans h.budget
  · show (s₁.log ++ [.buffered s₁.isOpen guardedRecord]) ++ [pendingEvent] = _
    rw [hfields.log, hfields.isOpen, List.append_assoc, List.singleton_append]

/-- One emit, and the close whose flush brings the fragment to a cap of one byte: the sentinel's two
markers and the cap's are all there are. -/
theorem emitCycle_capHolds :
    CapHolds plainConfig 3 emitCycle (Slot.run plainConfig {} emitCycle) := by
  refine capHolds_of_steadyRun plainConfig plainKey 1 emitCycle ?_ ⟨⟨?_, ?_⟩, ?_, trivial⟩ ?_ 2
  · intro op hmem
    rcases List.mem_cons.mp hmem with rfl | hmem
    · exact rfl
    · rw [List.mem_singleton.mp hmem]
      exact rfl
  · exact fun hopen => absurd hopen (by decide)
  · exact fun hlarge => absurd hlarge (Nat.not_lt.mpr guardedRecord_fits)
  · have harmed : Armed 0 {} (Slot.step plainConfig {} (.append appendDone (str "/f")
        guardedRecord)) := afterCycles_start.append rfl
    exact fun _ => flushDone_steady rfl (by rw [harmed.batchLen]; decide)
  · -- the close arms nothing
    have harmed : armings plainConfig {} emitCycle =
        ((SlotOp.append appendDone (str "/f") guardedRecord).arms {}).toNat := rfl
    rw [harmed]
    exact Bool.toNat_le _

/-- **One more cycle.** -/
theorem AfterCycles.next (h : AfterCycles n s) (htoken : cfg.fragmentRunToken = [])
    (hbelow : 74 * (n + 1) < cfg.fragmentByteCap) :
    AfterCycles (n + 1) (s.run cfg emitCycle) := by
  have harmed : Armed n s (s.step cfg (.append appendDone (str "/f") guardedRecord)) :=
    h.append htoken
  have hlen := harmed.batchLen
  have hbytes := harmed.fragmentBytes
  have hclosed := @close_done cfg _ harmed.isOpen harmed.overCap harmed.active (by omega)
    (by rw [hlen]; decide) (by omega)
  have hrun : s.run cfg emitCycle = closeFragmentSlot cfg true closeDone
      (s.step cfg (.append appendDone (str "/f") guardedRecord)) := rfl
  obtain ⟨hfile, hlargest⟩ := cycleEvents_sizes
  have hlog : (s.run cfg emitCycle).log = s.log ++ cycleEvents := by
    rw [hrun, hclosed, plain_slotMarker htoken harmed.key, harmed.batch]
    simp only [Slot.emit, harmed.log, List.append_assoc]
    rfl
  refine ⟨?_, ?_, ?_, ?_, ?_⟩
  · rw [hrun, hclosed]
  · rw [hrun, hclosed]
    exact harmed.overCap
  · have htotal : (s.step cfg (.append appendDone (str "/f") guardedRecord)).fragmentBytes +
        (s.step cfg (.append appendDone (str "/f") guardedRecord)).batchLen = 74 * (n + 1) := by
      omega
    rw [hrun, hclosed]
    exact (if_pos harmed.key).trans htotal
  · rw [hlog, fileBytes_append, hfile, h.file]
    omega
  · rw [hlog]
    exact largestMarker_append h.largest (Nat.le_of_eq hlargest)

/-- **The run of the cycles.** -/
theorem AfterCycles.run (htoken : cfg.fragmentRunToken = []) (k : Nat) : ∀ {n : Nat} {s : Slot},
    AfterCycles n s → 74 * (n + k) < cfg.fragmentByteCap →
      AfterCycles (n + k) (s.run cfg (cycles k)) := by
  induction k with
  | zero => exact fun h _ => h
  | succ k ih =>
    intro n s h hbelow
    have hsum : n + (k + 1) = n + 1 + k := by omega
    exact hsum ▸ ih (h.next htoken (by omega)) (by omega)

theorem cycles_ofIdentity (n : Nat) : ∀ op ∈ cycles n, op.OfIdentity plainKey := by
  intro op hmem
  rw [cycles, List.mem_flatten] at hmem
  obtain ⟨cycle, hcycle, hop⟩ := hmem
  rw [List.eq_of_mem_replicate hcycle] at hop
  rcases List.mem_cons.mp hop with rfl | hop
  · exact rfl
  · rw [List.mem_singleton.mp hop]
    exact rfl

theorem cycles_largestFrame (n : Nat) : largestFrame (cycles n) ≤ 74 := by
  induction n with
  | zero => exact Nat.zero_le _
  | succ n ih =>
    have hframe : (encodeFrame guardedRecord).length = 74 := by
      rw [← inlineFrameLen_eq, guardedRecord_facts.1]
    exact Nat.max_le.mpr ⟨Nat.le_of_eq hframe, ih⟩

end Cycles

def cyclesConfig (n : Nat) : WriterConfig := ⟨[], 74 * n + 1, Nat.succ_pos _⟩

/-- **No number of marker frames is enough for all runs**, whose emits may arm the sentinel any
number of times. -/
theorem markers_outgrow_cap :
    ¬ ∃ K : Nat, ∀ (cfg : WriterConfig) (key : FragmentKey) (ops : List SlotOp),
      (∀ op ∈ ops, op.OfIdentity key) → CapHolds cfg K ops (Slot.run cfg {} ops) := by
  rintro ⟨K, h⟩
  obtain ⟨n, hn⟩ : ∃ n, n = 365 + K := ⟨_, rfl⟩
  have hcap : (cyclesConfig n).fragmentByteCap = 74 * n + 1 := rfl
  have hend : AfterCycles (0 + n) (Slot.run (cyclesConfig n) {} (cycles n)) :=
    afterCycles_start.run rfl n (by omega)
  have hbounded := (h (cyclesConfig n) plainKey (cycles n) (cycles_ofIdentity n)).bounded
  have hmarkers : K * largestMarker (Slot.run (cyclesConfig n) {} (cycles n)).log ≤ K * 91 :=
    Nat.mul_le_mul_left K hend.largest
  have hframe := cycles_largestFrame n
  have hbuffer : FragmentBatchBufLen = 65536 := rfl
  rw [hend.file] at hbounded
  omega

end IoMon.SlotMachine
