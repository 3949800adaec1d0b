/-
# The slot's encoders write the reference frames

`appendFragmentRecord` decides by lengths alone whether a frame goes into the batch, so the stores
of `pushFrame` are in bounds because of a comparison made before them: a frame is stored beside the
batch only where it fits there, and behind a flush that did not raise the batch is empty.

The committed marker a signal handler writes is the one `writeReadTailMarker` would write, except
that it carries no diagnostic context: the handler could not sample one.
-/
import IoMon.Writer.SlotMachine

namespace IoMon.SlotMachine

open ByteText ByteCodec FixedBuffer MonitorRecordKind

/-! ## 1. The diagnostic context -/

def KillDiagCtxTag : NimStr := str " ctx="

/-- What `IO_MON_KILL_DIAG` and its deep variant leave for a thread. -/
structure KillDiag where
  enabled : Bool := false
  deep : Bool := false
  context : NimStr := []
  /-- the deep attribution, from `emits=` on -/
  deepText : NimStr := []

def killDiagContextForMarker (d : KillDiag) : NimStr :=
  if !d.enabled then []
  else if d.context.isEmpty && !d.deep then []
  else KillDiagCtxTag ++ d.context ++ (if d.deep then d.deepText else [])

/-! ## 2. A record in the batch -/

section Append

variable (cfg : WriterConfig) {s s' : Slot}

@[simp] theorem emit_batch (s : Slot) (e : SlotEvent) : (s.emit e).batch = s.batch := rfl

@[simp] theorem emit_batchLen (s : Slot) (e : SlotEvent) : (s.emit e).batchLen = s.batchLen := rfl

/-- A marker write leaves the batch alone. -/
theorem writeReadTailMarker_batch (io : MarkerIo) (detail : NimStr) (s : Slot) :
    (writeReadTailMarker cfg io detail s).batch = s.batch := by
  unfold writeReadTailMarker
  split
  · rfl
  · split <;> rfl

theorem writeReadTailMarker_batchLen (io : MarkerIo) (detail : NimStr) (s : Slot) :
    (writeReadTailMarker cfg io detail s).batchLen = s.batchLen := by
  unfold writeReadTailMarker
  split
  · rfl
  · split <;> rfl

theorem markReadingSentinel_batch (io : MarkerIo) (record : MonitorRecord) (s : Slot) :
    (markReadingSentinel cfg io record s).batch = s.batch := by
  unfold markReadingSentinel
  split
  · rfl
  split
  · rfl
  split
  · rfl
  · exact writeReadTailMarker_batch cfg io ReadTailPendingDetail s

/-- A record that captures no dependency needs no sentinel. -/
theorem markReadingSentinel_unguarded (io : MarkerIo) {record : MonitorRecord}
    (h : kindCarriesCapturedDependency record.kind = false) (s : Slot) :
    markReadingSentinel cfg io record s = s := by
  rw [markReadingSentinel, h, Bool.not_false, if_pos rfl]

theorem clearReadingSentinel_batchLen (io : MarkerIo) (s : Slot) :
    (clearReadingSentinel cfg io s).batchLen = s.batchLen := by
  unfold clearReadingSentinel
  split
  · rfl
  · exact writeReadTailMarker_batchLen cfg io ReadTailCommittedDetail s

theorem accountFragmentBytes_batchLen (io : AccountIo) (written : Nat) (h : s.batchLen = 0) :
    (accountFragmentBytes cfg io written s).batchLen = 0 := by
  unfold accountFragmentBytes
  split
  · exact h
  · simp only
    split
    · exact h
    · rfl

/-- **A flush of an open slot that does not raise leaves an empty batch.** -/
theorem flush_batchLen {io : FlushIo} (hopen : s.isOpen = true)
    (h : (flushFragmentBatch cfg io s).2 = none) :
    (flushFragmentBatch cfg io s).1.batchLen = 0 := by
  unfold flushFragmentBatch at h ⊢
  split at h
  · rename_i hnone
    rw [if_pos hnone]
    simpa [hopen] using hnone
  rename_i hnone
  rw [if_neg hnone]
  split at h
  · exact absurd h (by simp)
  rename_i hhandle
  rw [if_neg hhandle]
  simp only at h ⊢
  split at h
  · exact absurd h (by simp)
  rename_i hraised
  rw [if_neg hraised]
  split at h
  · exact absurd h (by simp)
  rename_i hshort
  rw [if_neg hshort]
  refine accountFragmentBytes_batchLen cfg io.account _ ?_
  rw [clearReadingSentinel_batchLen]

/-- **A frame that fits is stored whole.** -/
theorem pushFrame_spec (io : AppendIo) {record : MonitorRecord}
    (h : s.batchLen + inlineFrameLen record ≤ FragmentBatchBufLen) :
    (pushFrame cfg io record s).2 = none ∧
      (pushFrame cfg io record s).1.batch = s.batch ++ encodeFrame record := by
  obtain ⟨cursor, hstore, -, hfilled⟩ :=
    inlineEncode_of_le (c := ⟨s.batchBuf, s.batchLen⟩) (r := record) h
  unfold pushFrame
  rw [hstore]
  refine ⟨rfl, ?_⟩
  simp only
  rw [markReadingSentinel_batch, emit_batch]
  exact hfilled

theorem flush_inBounds (io : FlushIo) (s : Slot) :
    (flushFragmentBatch cfg io s).2 ≠ some .outOfBounds := by
  unfold flushFragmentBatch
  split
  · simp
  split
  · simp
  simp only
  split
  · simp
  split
  · simp
  · simp

theorem writeGiantFrame_inBounds (io : AppendIo) (record : MonitorRecord) (s : Slot) :
    (writeGiantFrame cfg io record s).2 ≠ some .outOfBounds := by
  unfold writeGiantFrame
  simp only
  split
  · simp
  split
  · simp
  · simp

theorem openFragmentSlot_inBounds (openOk : Bool) (key : FragmentKey) (s : Slot) :
    (openFragmentSlot cfg openOk key s).2 ≠ some .outOfBounds := by
  obtain ⟨committed, hstore, -⟩ :=
    precompute_spec key.2.1 key.2.2 cfg.fragmentRunToken s.committedFrame
  unfold openFragmentSlot
  split
  · simp
  · rw [hstore]
    simp

/-- A slot that has just opened a fragment.  Its budget starts anew unless it had the same
fragment before. -/
structure Opened (key : FragmentKey) (s s₁ : Slot) : Prop where
  isOpen : s₁.isOpen = true
  takesKey : s₁.key = key
  batchLen : s₁.batchLen = 0
  readingSentinelActive : s₁.readingSentinelActive = false
  fragmentBytes : s₁.fragmentBytes = if s.key = key then s.fragmentBytes else 0
  overCap : s₁.overCap = (decide (s.key = key) && s.overCap)
  log : s₁.log = s.log

theorem openFragmentSlot_fields {openOk : Bool} {key : FragmentKey}
    (h : openFragmentSlot cfg openOk key s = (s', none)) : Opened key s s' := by
  unfold openFragmentSlot at h
  split at h
  · exact absurd (congrArg Prod.snd h) (by simp)
  · split at h
    · exact absurd (congrArg Prod.snd h) (by simp)
    · obtain rfl := (Prod.mk.inj h).1
      exact ⟨rfl, rfl, rfl, rfl, rfl, rfl, rfl⟩

/-- A directory that fits and a file that opens are enough. -/
theorem openFragmentSlot_ok {key : FragmentKey} (hdir : key.1.length < FragmentDirBufLen)
    (s : Slot) : ∃ s₁, openFragmentSlot cfg true key s = (s₁, none) := by
  obtain ⟨committed, hstore, -⟩ :=
    precompute_spec key.2.1 key.2.2 cfg.fragmentRunToken s.committedFrame
  unfold openFragmentSlot
  rw [if_neg (by simpa using hdir), hstore]
  exact ⟨_, rfl⟩

/-- In the prepared state a frame that fits the batch buffer fits beside the batch. -/
theorem Prepared.fits {io : AppendIo} {record : MonitorRecord} (h : Prepared cfg io record s s')
    (hopen : s.isOpen = true) (hframe : inlineFrameLen record ≤ FragmentBatchBufLen) :
    s'.batchLen + inlineFrameLen record ≤ FragmentBatchBufLen ∧
      (s'.batch = s.batch ∨ s'.batch = []) := by
  cases h with
  | asItWas h =>
    simp only [flushesFirst, Bool.or_eq_false_iff, decide_eq_false_iff_not, not_lt] at h
    exact ⟨h.1.2, .inl rfl⟩
  | flushed h hflush =>
    have hempty := flush_batchLen cfg hopen (congrArg Prod.snd hflush)
    rw [hflush] at hempty
    refine ⟨by rw [hempty, Nat.zero_add]; exact hframe, .inr ?_⟩
    rw [Slot.batch, hempty, List.take_zero]

/-- **Behind the open fragment** a frame is stored in bounds, and whole where it fits. -/
theorem appendToOpen_spec (hopen : s.isOpen = true) (io : AppendIo) (record : MonitorRecord) :
    (appendToOpen cfg io record s).2 ≠ some .outOfBounds ∧
      (inlineFrameLen record ≤ FragmentBatchBufLen →
        (appendToOpen cfg io record s).2 = none →
        ∃ before, (before = s.batch ∨ before = []) ∧
          (appendToOpen cfg io record s).1.batch = before ++ encodeFrame record) := by
  rcases appendToOpen_cases cfg io record s with ⟨s₁, e, -, hflush, hresult⟩ | ⟨s₁, hprep, hresult⟩
  · have hinside := flush_inBounds cfg io.flush s
    rw [hflush] at hinside
    rw [hresult]
    exact ⟨hinside, fun _ hnone => absurd hnone (by simp)⟩
  · rw [hresult]
    split
    · rename_i hgiant
      exact ⟨writeGiantFrame_inBounds cfg io record s₁, fun hfits => absurd hgiant (by omega)⟩
    · rename_i hfits
      obtain ⟨hroom, hbefore⟩ := hprep.fits cfg hopen (Nat.not_lt.mp hfits)
      obtain ⟨hnone, hbatch⟩ := pushFrame_spec cfg io hroom
      exact ⟨by rw [hnone]; simp, fun _ _ => ⟨s₁.batch, hbefore, hbatch⟩⟩

/-- **An append stores its record in bounds**: one that does not raise has been dropped by a retired
fragment, or has put the reference frame behind the batch. -/
theorem appendFragmentRecord_spec (io : AppendIo) (fragmentDir : NimStr) (record : MonitorRecord)
    (s : Slot) :
    (appendFragmentRecord cfg io fragmentDir record s).2 ≠ some .outOfBounds ∧
      (inlineFrameLen record ≤ FragmentBatchBufLen →
        (appendFragmentRecord cfg io fragmentDir record s).2 = none →
        (s.overCap = true ∧ s.key = (fragmentDir, record.osPid, record.threadId) ∧
            (appendFragmentRecord cfg io fragmentDir record s).1 = s) ∨
          ∃ before, (before = s.batch ∨ before = []) ∧
            (appendFragmentRecord cfg io fragmentDir record s).1.batch =
              before ++ encodeFrame record) := by
  rcases appendFragmentRecord_cases cfg io fragmentDir record s with
    ⟨hcap, hkey, hresult⟩ | ⟨-, -, hresult⟩ | ⟨hopen, -, -, -, hresult⟩ |
    ⟨-, ⟨s₁, e, hfailed, hresult⟩ | ⟨s₁, hopened, hresult⟩⟩
  · rw [hresult]
    exact ⟨by simp, fun _ _ => .inl ⟨hcap, hkey, rfl⟩⟩
  · rw [hresult]
    exact ⟨by simp, fun _ hnone => absurd hnone (by simp)⟩
  · obtain ⟨hinside, hstored⟩ := appendToOpen_spec cfg hopen io record
    rw [hresult]
    exact ⟨hinside, fun hfits hnone => .inr (hstored hfits hnone)⟩
  · have hinside := openFragmentSlot_inBounds cfg io.openOk
      (fragmentDir, record.osPid, record.threadId) (leaveFragment cfg io s)
    rw [hfailed] at hinside
    rw [hresult]
    exact ⟨hinside, fun _ hnone => absurd hnone (by simp)⟩
  · have hfields := openFragmentSlot_fields cfg hopened
    obtain ⟨hinside, hstored⟩ := appendToOpen_spec cfg hfields.isOpen io record
    rw [hresult]
    refine ⟨hinside, fun hfits hnone => .inr ?_⟩
    obtain ⟨before, hbefore, hbatch⟩ := hstored hfits hnone
    refine ⟨before, .inr ?_, hbatch⟩
    rcases hbefore with rfl | rfl
    · rw [Slot.batch, hfields.batchLen, List.take_zero]
    · rfl

/-- **The first record of a fragment** is stored at the start of the batch. -/
theorem append_opens {io : AppendIo} {dir : NimStr} {record : MonitorRecord}
    (hclosed : s.isOpen = false) (hcap : s.overCap = false) (hok : io.openOk = true)
    (hdir : dir.length < FragmentDirBufLen)
    (hfits : inlineFrameLen record ≤ FragmentBatchBufLen) :
    ∃ (s₁ : Slot) (cursor : Cursor FragmentBatchBufLen),
      openFragmentSlot cfg true (dir, record.osPid, record.threadId) s = (s₁, none) ∧
      cursor.pos = inlineFrameLen record ∧ cursor.filled = encodeFrame record ∧
      appendFragmentRecord cfg io dir record s =
        (markReadingSentinel cfg io.pending record
          ({ s₁ with batchBuf := cursor.buf, batchLen := cursor.pos }.emit
            (.buffered s₁.isOpen record)), none) := by
  obtain ⟨s₁, hopened⟩ := openFragmentSlot_ok cfg
    (show (dir, record.osPid, record.threadId).1.length < FragmentDirBufLen from hdir) s
  have hfields := openFragmentSlot_fields cfg hopened
  have hroom : s₁.batchLen + inlineFrameLen record ≤ FragmentBatchBufLen := by
    rw [hfields.batchLen]
    omega
  obtain ⟨cursor, hstore, hpos, hfilled⟩ :=
    inlineEncode_of_le (c := ⟨s₁.batchBuf, s₁.batchLen⟩) hroom
  refine ⟨s₁, cursor, hopened, ?_, ?_, ?_⟩
  · rw [hpos]
    show s₁.batchLen + _ = _
    rw [hfields.batchLen, Nat.zero_add]
  · rw [hfilled]
    show s₁.batchBuf.bytes.take s₁.batchLen ++ _ = _
    rw [hfields.batchLen, List.take_zero, List.nil_append]
  have hleave : leaveFragment cfg io s = s := by
    rw [leaveFragment, hclosed, if_neg Bool.false_ne_true]
  have hnoflush : flushesFirst io record s₁ = false := by
    simp only [flushesFirst, hfields.batchLen, Nat.zero_add, Nat.lt_irrefl, decide_false,
      Bool.false_and, Bool.or_false, Bool.or_self, decide_eq_false_iff_not]
    omega
  unfold appendFragmentRecord
  simp only [hcap, hclosed, Bool.false_and, Bool.not_false, Bool.true_or, if_true,
    Bool.false_eq_true, if_false, hok, hleave, hopened]
  unfold appendToOpen
  rw [hnoflush, if_neg Bool.false_ne_true]
  simp only
  rw [if_neg (by omega), pushFrame, hstore]

end Append

/-! ## 3. The committed marker -/

/-- What a marker write on an open slot is. -/
theorem writeReadTailMarker_open {cfg : WriterConfig} {io : MarkerIo} {s : Slot}
    (hopen : s.isOpen = true) (hhandle : io.handleOk = true) (detail : NimStr) :
    writeReadTailMarker cfg io detail s =
      s.emit (.wrote (.marker detail) true (encodeFrame (s.marker cfg detail io.ctx))
        io.reached) := by
  simp only [writeReadTailMarker, hopen, hhandle, Bool.not_true, Bool.false_eq_true, if_false]

/-- The slot's own frame is its committed marker without a context. -/
theorem precompute_marker (cfg : WriterConfig) (s : Slot) :
    ∃ c, precomputeSigSafeCommittedFrame s.key.2.1 s.key.2.2 cfg.fragmentRunToken
        s.committedFrame = some c ∧
      c.pos ≤ SigSafeCommittedBufLen ∧
      (c.pos ≠ 0 → c.filled = encodeFrame (s.marker cfg ReadTailCommittedDetail [])) := by
  obtain ⟨c, hstore, hpos, hfilled⟩ :=
    precompute_spec s.key.2.1 s.key.2.2 cfg.fragmentRunToken s.committedFrame
  refine ⟨c, hstore, hpos, fun hne => ?_⟩
  rw [hfilled hne, Slot.marker, List.append_nil]

/-- **The encoders agree.**  Whatever the slot, the record and what the append meets, no store goes
past the batch buffer, and a frame that fits the buffer and is not dropped is placed there byte for
byte; and the marker a slot carries for a signal handler lies within its array and is what
`writeReadTailMarker` writes for the slot when no diagnostic context is in force. -/
theorem encoders_agree (cfg : WriterConfig) (s : Slot) :
    (∀ (io : AppendIo) (fragmentDir : NimStr) (record : MonitorRecord),
      (appendFragmentRecord cfg io fragmentDir record s).2 ≠ some .outOfBounds ∧
        ((encodeFrame record).length ≤ FragmentBatchBufLen →
          (appendFragmentRecord cfg io fragmentDir record s).2 = none →
          (s.overCap = true ∧ s.key = (fragmentDir, record.osPid, record.threadId) ∧
              (appendFragmentRecord cfg io fragmentDir record s).1 = s) ∨
            ∃ before, (before = s.batch ∨ before = []) ∧
              (appendFragmentRecord cfg io fragmentDir record s).1.batch =
                before ++ encodeFrame record)) ∧
    ∃ c, precomputeSigSafeCommittedFrame s.key.2.1 s.key.2.2 cfg.fragmentRunToken
        s.committedFrame = some c ∧
      c.pos ≤ SigSafeCommittedBufLen ∧
      ∀ (d : KillDiag) (io : MarkerIo), c.pos ≠ 0 → killDiagContextForMarker d = [] →
        io.ctx = killDiagContextForMarker d → s.isOpen = true → io.handleOk = true →
        writeReadTailMarker cfg io ReadTailCommittedDetail s =
          s.emit (.wrote (.marker ReadTailCommittedDetail) true c.filled io.reached) := by
  constructor
  · intro io fragmentDir record
    rw [← inlineFrameLen_eq]
    exact appendFragmentRecord_spec cfg io fragmentDir record s
  · obtain ⟨c, hstore, hpos, hfilled⟩ := precompute_marker cfg s
    refine ⟨c, hstore, hpos, fun d io hne hquiet hctx hopen hhandle => ?_⟩
    rw [writeReadTailMarker_open hopen hhandle, hfilled hne, hctx, hquiet]

def openSlot : Slot := { isOpen := true }

def plainConfig : WriterConfig := ⟨[], 1, by decide⟩

/-- A thread whose last hook is `execve`, with `IO_MON_KILL_DIAG` set. -/
def execveDiag : KillDiag := { enabled := true, context := str "phase=execve" }

/-- **Under a diagnostic context the two committed markers differ.** -/
theorem committed_marker_without_context :
    ¬ ∀ (cfg : WriterConfig) (s : Slot) (c : Cursor SigSafeCommittedBufLen) (d : KillDiag)
        (io : MarkerIo), precomputeSigSafeCommittedFrame s.key.2.1 s.key.2.2 cfg.fragmentRunToken
          s.committedFrame = some c → c.pos ≠ 0 → io.ctx = killDiagContextForMarker d →
        s.isOpen = true → io.handleOk = true →
        writeReadTailMarker cfg io ReadTailCommittedDetail s =
          s.emit (.wrote (.marker ReadTailCommittedDetail) true c.filled io.reached) := by
  intro h
  obtain ⟨c, hstore, -, hfilled⟩ := precompute_marker plainConfig openSlot
  have hne : c.pos ≠ 0 := by
    intro hzero
    have hpos : (precomputeSigSafeCommittedFrame 0 0 [] (.zeros _)).map Cursor.pos = some 0 := by
      rw [← hzero]
      exact congrArg (Option.map Cursor.pos) hstore
    exact absurd hpos (by decide +kernel)
  have hwrite := h plainConfig openSlot c execveDiag
    { reached := 0, ctx := killDiagContextForMarker execveDiag } hstore hne rfl rfl rfl
  rw [writeReadTailMarker_open rfl rfl, hfilled hne] at hwrite
  have hlog := List.append_cancel_left (congrArg Slot.log hwrite)
  have hframe := (SlotEvent.wrote.inj (List.cons.inj hlog).1).2.2.1
  have hlen := congrArg List.length hframe
  rw [← inlineFrameLen_eq, ← inlineFrameLen_eq] at hlen
  exact absurd hlen (by decide +kernel)

end IoMon.SlotMachine
