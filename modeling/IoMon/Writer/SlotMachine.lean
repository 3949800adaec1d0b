/-
# The fragment slot with everything it does to files

`Writer.Slot` follows one fragment and looks at what its file holds.  Here the slot belongs to a
thread: it has a key, which an append of another record can change and a fork takes away; its batch
is an array that records are stored into; and the handle can be lost at every write, the marker
writes included.

What the slot does is kept in a log: each write with the bytes it was given and the number that
reached the file, each record that was buffered, and each end of the open handle.  A write and a
buffering note whether the slot was open.  Whether a handle is still the fragment's, how much of a
write is done, whether a batch is too old and what diagnostic context a marker carries are inputs.
-/
import IoMon.Writer.InlineEncoders

namespace IoMon.SlotMachine

open ByteText FixedBuffer MonitorRecordKind

/-! ## 1. The slot and its log -/

def FragmentDirBufLen : Nat := 4096

/-- The fragment directory, the process and the thread. -/
abbrev FragmentKey : Type := NimStr × UInt64 × UInt64

def noKey : FragmentKey := ([], 0, 0)

/-- What a process resolves once.  A cap that is not positive is replaced by the default. -/
structure WriterConfig where
  fragmentRunToken : NimStr
  fragmentByteCap : Nat
  positive : 0 < fragmentByteCap

inductive WriteKind
  | batch
  | giant
  | marker (detail : NimStr)
  deriving DecidableEq

inductive SlotEvent
  | wrote (kind : WriteKind) (slotOpen : Bool) (bytes : List UInt8) (reached : Nat)
  | buffered (slotOpen : Bool) (r : MonitorRecord)
  /-- the handle was closed -/
  | closed
  /-- the handle was lost, or left to the parent of a fork -/
  | givenUp
  deriving DecidableEq

structure Slot where
  isOpen : Bool := false
  key : FragmentKey := noKey
  batchBuf : Buffer FragmentBatchBufLen := .zeros _
  batchLen : Nat := 0
  readingSentinelActive : Bool := false
  committedFrame : Buffer SigSafeCommittedBufLen := .zeros _
  committedFrameLen : Nat := 0
  fragmentBytes : Nat := 0
  overCap : Bool := false
  log : List SlotEvent := []

/-- What the batch holds. -/
def Slot.batch (s : Slot) : List UInt8 := s.batchBuf.bytes.take s.batchLen

def Slot.emit (s : Slot) (e : SlotEvent) : Slot := { s with log := s.log ++ [e] }

/-- What a raise of the writer is: one of the slot's own, or a store past the end of a buffer. -/
inductive WriterRaise
  | raised (e : SlotRaise)
  | outOfBounds
  deriving DecidableEq

def shortWriteTo (key : FragmentKey) : SlotRaise :=
  .envelope ⟨.eeMalformed, str "short write to iomon fragment for osPid=" ++ decimal key.2.1 ++
    str " threadId=" ++ decimal key.2.2⟩

/-- `fragmentPath`. -/
def fragmentPath (key : FragmentKey) : NimStr :=
  key.1 ++ str "/repro-monitor-" ++ decimal key.2.1 ++ str "-" ++ decimal key.2.2 ++
    str ".iomon-frag"

/-! ## 2. What an operation meets -/

/-- A marker write. -/
structure MarkerIo where
  /-- the handle is current, or could be reopened -/
  handleOk : Bool := true
  reached : Nat
  /-- `killDiagContextForMarker` -/
  ctx : NimStr := []

/-- `accountFragmentBytes`: the cap marker, and the committed one of a sentinel still armed. -/
structure AccountIo where
  cap : MarkerIo
  committed : MarkerIo

structure FlushIo where
  handleOk : Bool := true
  write : WriteOutcome
  committed : MarkerIo
  account : AccountIo

structure CloseIo where
  handleOk : Bool := true
  flush : FlushIo
  committed : MarkerIo

structure SweepIo where
  write : WriteOutcome
  committed : WriteOutcome

structure AppendIo where
  handleOk : Bool := true
  /-- the flush of the fragment that the slot leaves for another -/
  leave : FlushIo
  openOk : Bool := true
  /-- the clock says that the batch is too old -/
  stale : Bool := false
  flush : FlushIo
  /-- the write of a frame larger than the batch -/
  direct : WriteOutcome
  account : AccountIo
  pending : MarkerIo

/-! ## 3. Operations -/

section Operations

variable (cfg : WriterConfig)

/-- The marker record of a slot. -/
def Slot.marker (s : Slot) (detail ctx : NimStr) : MonitorRecord :=
  readTailMarker s.key.2.1 s.key.2.2 (detail ++ cfg.fragmentRunToken ++ ctx)

/-- `writeReadTailMarker`; a short or failed write is swallowed. -/
def writeReadTailMarker (io : MarkerIo) (detail : NimStr) (s : Slot) : Slot :=
  if !s.isOpen then s
  else if !io.handleOk then { s with isOpen := false }.emit .givenUp
  else
    s.emit (.wrote (.marker detail) s.isOpen (encodeFrame (s.marker cfg detail io.ctx)) io.reached)

def markReadingSentinel (io : MarkerIo) (record : MonitorRecord) (s : Slot) : Slot :=
  if !kindCarriesCapturedDependency record.kind then s
  else if recordSuppressesOnlyADowngrade record then s
  else if s.readingSentinelActive || !s.isOpen then s
  else { writeReadTailMarker cfg io ReadTailPendingDetail s with readingSentinelActive := true }

def clearReadingSentinel (io : MarkerIo) (s : Slot) : Slot :=
  if !s.readingSentinelActive then s
  else { writeReadTailMarker cfg io ReadTailCommittedDetail s with readingSentinelActive := false }

/-- `accountFragmentBytes`: at the cap the fragment is retired. -/
def accountFragmentBytes (io : AccountIo) (written : Nat) (s : Slot) : Slot :=
  if s.overCap || !s.isOpen then s
  else
    let s := { s with fragmentBytes := s.fragmentBytes + written }
    if s.fragmentBytes < cfg.fragmentByteCap then s
    else
      let s := { writeReadTailMarker cfg io.cap FragmentCapReachedDetail s with overCap := true }
      let s := clearReadingSentinel cfg io.committed s
      { s with isOpen := false, batchLen := 0, readingSentinelActive := false }.emit .closed

def flushFragmentBatch (io : FlushIo) (s : Slot) : Slot × Option WriterRaise :=
  if !s.isOpen || s.batchLen == 0 then (s, none)
  else if !io.handleOk then
    ({ s with isOpen := false }.emit .givenUp, some (.raised handleLost))
  else
    let bufLen := s.batchLen
    let s := s.emit (.wrote .batch s.isOpen s.batch io.write.reached)
    if io.write.raised then (s, some (.raised .ioError))
    else if io.write.reached < bufLen then
      ({ s with batchLen := 0 }, some (.raised (shortWriteTo s.key)))
    else
      let s := clearReadingSentinel cfg io.committed { s with batchLen := 0 }
      (accountFragmentBytes cfg io.account bufLen s, none)

/-- `closeFragmentSlot`: whatever the flush raised is dropped. -/
def closeFragmentSlot (retainIdentity : Bool) (io : CloseIo) (s : Slot) : Slot :=
  if !s.isOpen then s
  else if !io.handleOk then { s with isOpen := false }.emit .givenUp
  else
    let s := clearReadingSentinel cfg io.committed (flushFragmentBatch cfg io.flush s).1
    let s := if s.isOpen then s.emit .closed else s
    { s with
      isOpen := false
      key := if retainIdentity then s.key else noKey
      batchLen := 0
      readingSentinelActive := false
      fragmentBytes := if retainIdentity then s.fragmentBytes else 0
      overCap := retainIdentity && s.overCap }

/-- `discardFragmentSlotAfterFork`: the batch belongs to the parent. -/
def discardFragmentSlotAfterFork (s : Slot) : Slot :=
  { s with
    isOpen := false
    key := noKey
    batchLen := 0
    fragmentBytes := 0
    overCap := false
    readingSentinelActive := false }.emit .givenUp

/-- `flushAllRegisteredSlots` on another thread reaching this slot. -/
def sweepSlot (io : SweepIo) (s : Slot) : Slot :=
  if s.isOpen && decide (0 < s.batchLen) then
    let bufLen := s.batchLen
    let s := s.emit (.wrote .batch s.isOpen s.batch io.write.reached)
    let s :=
      if io.write.whole bufLen && s.readingSentinelActive && decide (0 < s.committedFrameLen) then
        let marker := s.committedFrame.bytes.take s.committedFrameLen
        let s := s.emit (.wrote (.marker ReadTailCommittedDetail) s.isOpen marker
          io.committed.reached)
        { s with readingSentinelActive := !io.committed.whole s.committedFrameLen }
      else s
    { s with batchLen := 0 }
  else s

/-- `openFragmentSlot`.  The directory has to fit the slot's own copy of it. -/
def openFragmentSlot (openOk : Bool) (key : FragmentKey) (s : Slot) : Slot × Option WriterRaise :=
  if !openOk || decide (FragmentDirBufLen ≤ key.1.length) then
    (s, some (.raised (.envelope
      ⟨.eeMalformed, str "cannot open iomon fragment for append: " ++ fragmentPath key⟩)))
  else
    match precomputeSigSafeCommittedFrame key.2.1 key.2.2 cfg.fragmentRunToken s.committedFrame with
    | none => (s, some .outOfBounds)
    | some committed =>
      ({ s with
          isOpen := true
          key := key
          batchLen := 0
          readingSentinelActive := false
          committedFrame := committed.buf
          committedFrameLen := committed.pos
          fragmentBytes := if s.key = key then s.fragmentBytes else 0
          overCap := decide (s.key = key) && s.overCap }, none)

/-- The frame is stored into the batch buffer, behind what is there. -/
def pushFrame (io : AppendIo) (record : MonitorRecord) (s : Slot) : Slot × Option WriterRaise :=
  match inlineEncode record ⟨s.batchBuf, s.batchLen⟩ with
  | none => (s, some .outOfBounds)
  | some cursor =>
    let s := { s with batchBuf := cursor.buf, batchLen := cursor.pos }
    (markReadingSentinel cfg io.pending record (s.emit (.buffered s.isOpen record)), none)

/-- A frame larger than the batch buffer, through the handle. -/
def writeGiantFrame (io : AppendIo) (record : MonitorRecord) (s : Slot) :
    Slot × Option WriterRaise :=
  let frame := encodeFrame record
  let s := s.emit (.wrote .giant s.isOpen frame io.direct.reached)
  if io.direct.raised then (s, some (.raised .ioError))
  else if io.direct.reached < frame.length then (s, some (.raised (shortWriteTo s.key)))
  else (accountFragmentBytes cfg io.account frame.length s, none)

/-- The batch is flushed first: a frame that is too large, one that does not fit beside the batch,
or a batch that is too old. -/
def flushesFirst (io : AppendIo) (record : MonitorRecord) (s : Slot) : Bool :=
  decide (FragmentBatchBufLen < inlineFrameLen record) ||
    decide (FragmentBatchBufLen < s.batchLen + inlineFrameLen record) ||
    (decide (0 < s.batchLen) && io.stale)

/-- The part of `appendFragmentRecord` behind the open fragment. -/
def appendToOpen (io : AppendIo) (record : MonitorRecord) (s : Slot) : Slot × Option WriterRaise :=
  match if flushesFirst io record s then flushFragmentBatch cfg io.flush s else (s, none) with
  | (s, some e) => (s, some e)
  | (s, none) =>
    if FragmentBatchBufLen < inlineFrameLen record then writeGiantFrame cfg io record s
    else pushFrame cfg io record s

/-- The slot leaves the fragment it has open. -/
def leaveFragment (io : AppendIo) (s : Slot) : Slot :=
  if s.isOpen then { (flushFragmentBatch cfg io.leave s).1 with isOpen := false }.emit .closed
  else s

/-- `appendFragmentRecord`, on the path that writes files. -/
def appendFragmentRecord (io : AppendIo) (fragmentDir : NimStr) (record : MonitorRecord)
    (s : Slot) : Slot × Option WriterRaise :=
  let key := (fragmentDir, record.osPid, record.threadId)
  if s.overCap && decide (s.key = key) then (s, none)
  else if s.isOpen && !io.handleOk then
    ({ s with isOpen := false }.emit .givenUp, some (.raised handleLost))
  else if !s.isOpen || decide (s.key ≠ key) then
    match openFragmentSlot cfg io.openOk key (leaveFragment cfg io s) with
    | (s, some e) => (s, some e)
    | (s, none) => appendToOpen cfg io record s
  else appendToOpen cfg io record s

end Operations

/-- The state an append buffers or writes its record in. -/
inductive Prepared (cfg : WriterConfig) (io : AppendIo) (record : MonitorRecord) (s : Slot) :
    Slot → Prop
  | asItWas (h : flushesFirst io record s = false) : Prepared cfg io record s s
  | flushed {s₁ : Slot} (h : flushesFirst io record s = true)
      (hflush : flushFragmentBatch cfg io.flush s = (s₁, none)) : Prepared cfg io record s s₁

/-- **What an append to an open fragment comes down to**: a flush that raised, or one record
written or buffered in the prepared state. -/
theorem appendToOpen_cases (cfg : WriterConfig) (io : AppendIo) (record : MonitorRecord)
    (s : Slot) :
    (∃ s₁ e, flushesFirst io record s = true ∧
        flushFragmentBatch cfg io.flush s = (s₁, some e) ∧
        appendToOpen cfg io record s = (s₁, some e)) ∨
      ∃ s₁, Prepared cfg io record s s₁ ∧
        appendToOpen cfg io record s =
          if FragmentBatchBufLen < inlineFrameLen record then writeGiantFrame cfg io record s₁
          else pushFrame cfg io record s₁ := by
  unfold appendToOpen
  cases hfirst : flushesFirst io record s with
  | false => exact .inr ⟨s, .asItWas hfirst, by rw [if_neg Bool.false_ne_true]⟩
  | true =>
    rw [if_pos rfl]
    cases hflush : flushFragmentBatch cfg io.flush s with
    | mk s₁ raised =>
      cases raised with
      | some e => exact .inl ⟨s₁, e, rfl, rfl, rfl⟩
      | none => exact .inr ⟨s₁, .flushed hfirst hflush, rfl⟩

/-- **What an append comes down to**: the record is dropped, the handle or the new fragment cannot
be had, or the record is appended to a fragment that was open or has been opened for it. -/
theorem appendFragmentRecord_cases (cfg : WriterConfig) (io : AppendIo) (fragmentDir : NimStr)
    (record : MonitorRecord) (s : Slot) :
    (s.overCap = true ∧ s.key = (fragmentDir, record.osPid, record.threadId) ∧
        appendFragmentRecord cfg io fragmentDir record s = (s, none)) ∨
      (s.isOpen = true ∧ io.handleOk = false ∧
        appendFragmentRecord cfg io fragmentDir record s =
          ({ s with isOpen := false }.emit .givenUp, some (.raised handleLost))) ∨
      (s.isOpen = true ∧ io.handleOk = true ∧
        s.key = (fragmentDir, record.osPid, record.threadId) ∧ s.overCap = false ∧
        appendFragmentRecord cfg io fragmentDir record s = appendToOpen cfg io record s) ∨
      ((s.isOpen = true → s.key ≠ (fragmentDir, record.osPid, record.threadId)) ∧
        ((∃ s₁ e, openFragmentSlot cfg io.openOk (fragmentDir, record.osPid, record.threadId)
            (leaveFragment cfg io s) = (s₁, some e) ∧
          appendFragmentRecord cfg io fragmentDir record s = (s₁, some e)) ∨
        ∃ s₁, openFragmentSlot cfg io.openOk (fragmentDir, record.osPid, record.threadId)
            (leaveFragment cfg io s) = (s₁, none) ∧
          appendFragmentRecord cfg io fragmentDir record s = appendToOpen cfg io record s₁)) := by
  unfold appendFragmentRecord
  simp only
  split
  · rename_i hdrop
    rw [Bool.and_eq_true, decide_eq_true_iff] at hdrop
    exact .inl ⟨hdrop.1, hdrop.2, rfl⟩
  rename_i hdrop
  split
  · rename_i hlost
    rw [Bool.and_eq_true, Bool.not_eq_true'] at hlost
    exact .inr (.inl ⟨hlost.1, hlost.2, rfl⟩)
  rename_i hlost
  split
  · rename_i hreopen
    refine .inr (.inr (.inr ⟨fun hopen => ?_, ?_⟩))
    · simpa [hopen] using hreopen
    · cases hresult : openFragmentSlot cfg io.openOk (fragmentDir, record.osPid, record.threadId)
          (leaveFragment cfg io s) with
      | mk s₁ raised =>
        cases raised with
        | some e => exact .inl ⟨s₁, e, rfl, rfl⟩
        | none => exact .inr ⟨s₁, rfl, rfl⟩
  · rename_i hreopen
    rw [Bool.or_eq_true, not_or, decide_eq_true_iff, not_not] at hreopen
    have hopen : s.isOpen = true := by simpa using hreopen.1
    refine .inr (.inr (.inl ⟨hopen, ?_, hreopen.2, ?_, rfl⟩))
    · simpa [hopen] using hlost
    · simpa [hreopen.2] using hdrop

/-! ## 4. Runs -/

inductive SlotOp
  | append (io : AppendIo) (fragmentDir : NimStr) (record : MonitorRecord)
  | flush (io : FlushIo)
  | close (retainIdentity : Bool) (io : CloseIo)
  | forkDiscard
  | sweep (io : SweepIo)

def Slot.step (cfg : WriterConfig) (s : Slot) : SlotOp → Slot
  | .append io fragmentDir record => (appendFragmentRecord cfg io fragmentDir record s).1
  | .flush io => (flushFragmentBatch cfg io s).1
  | .close retainIdentity io => closeFragmentSlot cfg retainIdentity io s
  | .forkDiscard => discardFragmentSlotAfterFork s
  | .sweep io => sweepSlot io s

def Slot.run (cfg : WriterConfig) (s : Slot) (ops : List SlotOp) : Slot :=
  ops.foldl (Slot.step cfg) s

/-! ## 5. The log only grows

No operation takes an event back, and none makes more than a fixed number. -/

/-- The log of `s'` is that of `s` with at most `k` more events. -/
def Extends (k : Nat) (s s' : Slot) : Prop :=
  ∃ events : List SlotEvent, s'.log = s.log ++ events ∧ events.length ≤ k

section Growth

variable (cfg : WriterConfig)

theorem Extends.refl (s : Slot) : Extends 0 s s := ⟨[], (List.append_nil _).symm, Nat.le_refl _⟩

theorem Extends.trans {j k : Nat} {s t u : Slot} (h : Extends j s t) (h' : Extends k t u) :
    Extends (j + k) s u := by
  obtain ⟨es, hes, hlen⟩ := h
  obtain ⟨es', hes', hlen'⟩ := h'
  refine ⟨es ++ es', ?_, ?_⟩
  · rw [hes', hes, List.append_assoc]
  · rw [List.length_append]
    omega

theorem Extends.mono {j k : Nat} {s t : Slot} (h : Extends j s t) (hjk : j ≤ k) :
    Extends k s t := by
  obtain ⟨es, hes, hlen⟩ := h
  exact ⟨es, hes, hlen.trans hjk⟩

theorem Extends.mem {k : Nat} {s t : Slot} (h : Extends k s t) {e : SlotEvent} (he : e ∈ s.log) :
    e ∈ t.log := by
  obtain ⟨es, hes, -⟩ := h
  rw [hes]
  exact List.mem_append_left _ he

/-- A state with the same log. -/
theorem Extends.of_log {s t : Slot} (h : t.log = s.log) : Extends 0 s t :=
  ⟨[], h.trans (List.append_nil _).symm, Nat.le_refl _⟩

theorem extends_emit (s : Slot) (e : SlotEvent) : Extends 1 s (s.emit e) :=
  ⟨[e], rfl, Nat.le_refl _⟩

theorem extends_marker (io : MarkerIo) (detail : NimStr) (s : Slot) :
    Extends 1 s (writeReadTailMarker cfg io detail s) := by
  unfold writeReadTailMarker
  split
  · exact (Extends.refl s).mono (by omega)
  split
  · exact extends_emit ..
  · exact extends_emit ..

theorem extends_mark (io : MarkerIo) (record : MonitorRecord) (s : Slot) :
    Extends 1 s (markReadingSentinel cfg io record s) := by
  unfold markReadingSentinel
  split
  · exact (Extends.refl s).mono (by omega)
  split
  · exact (Extends.refl s).mono (by omega)
  split
  · exact (Extends.refl s).mono (by omega)
  · exact extends_marker cfg io ReadTailPendingDetail s

theorem extends_clear (io : MarkerIo) (s : Slot) :
    Extends 1 s (clearReadingSentinel cfg io s) := by
  unfold clearReadingSentinel
  split
  · exact (Extends.refl s).mono (by omega)
  · exact extends_marker cfg io ReadTailCommittedDetail s

theorem extends_account (io : AccountIo) (written : Nat) (s : Slot) :
    Extends 3 s (accountFragmentBytes cfg io written s) := by
  unfold accountFragmentBytes
  split
  · exact (Extends.refl s).mono (by omega)
  simp only
  split
  · exact (Extends.refl s).mono (by omega)
  · have hmarked := extends_marker cfg io.cap FragmentCapReachedDetail
      { s with fragmentBytes := s.fragmentBytes + written }
    have hcleared := extends_clear cfg io.committed { writeReadTailMarker cfg io.cap
      FragmentCapReachedDetail { s with fragmentBytes := s.fragmentBytes + written } with
        overCap := true }
    exact (hmarked.trans hcleared).trans (extends_emit _ .closed)

theorem extends_flush (io : FlushIo) (s : Slot) :
    Extends 5 s (flushFragmentBatch cfg io s).1 := by
  unfold flushFragmentBatch
  split
  · exact (Extends.refl s).mono (by omega)
  split
  · exact Extends.mono (extends_emit s .givenUp) (by omega)
  have hwrote := extends_emit s (.wrote .batch s.isOpen s.batch io.write.reached)
  simp only
  split
  · exact hwrote.mono (by omega)
  split
  · exact Extends.mono hwrote (by omega)
  · have hcleared := extends_clear cfg io.committed
      { s.emit (.wrote .batch s.isOpen s.batch io.write.reached) with batchLen := 0 }
    exact (hwrote.trans hcleared).trans (extends_account cfg io.account _ _)

theorem extends_close (retainIdentity : Bool) (io : CloseIo) (s : Slot) :
    Extends 7 s (closeFragmentSlot cfg retainIdentity io s) := by
  unfold closeFragmentSlot
  split
  · exact (Extends.refl s).mono (by omega)
  split
  · exact Extends.mono (extends_emit s .givenUp) (by omega)
  · have hcleared := (extends_flush cfg io.flush s).trans (extends_clear cfg io.committed _)
    have hended (t : Slot) : Extends 1 t (if t.isOpen then t.emit .closed else t) := by
      split
      · exact extends_emit t .closed
      · exact (Extends.refl t).mono (by omega)
    exact hcleared.trans (hended _)

theorem extends_sweep (io : SweepIo) (s : Slot) : Extends 2 s (sweepSlot io s) := by
  unfold sweepSlot
  split
  · have hwrote := extends_emit s (.wrote .batch s.isOpen s.batch io.write.reached)
    simp only
    split
    · exact hwrote.trans (extends_emit _ _)
    · exact Extends.mono hwrote (by omega)
  · exact (Extends.refl s).mono (by omega)

theorem extends_push (io : AppendIo) (record : MonitorRecord) (s : Slot) :
    Extends 2 s (pushFrame cfg io record s).1 := by
  unfold pushFrame
  cases inlineEncode record ⟨s.batchBuf, s.batchLen⟩ with
  | none => exact (Extends.refl s).mono (by omega)
  | some cursor =>
    have hbuffered := extends_emit { s with batchBuf := cursor.buf, batchLen := cursor.pos }
      (.buffered s.isOpen record)
    exact hbuffered.trans (extends_mark cfg io.pending record _)

theorem extends_giant (io : AppendIo) (record : MonitorRecord) (s : Slot) :
    Extends 4 s (writeGiantFrame cfg io record s).1 := by
  have hwrote := extends_emit s (.wrote .giant s.isOpen (encodeFrame record) io.direct.reached)
  unfold writeGiantFrame
  simp only
  split
  · exact hwrote.mono (by omega)
  split
  · exact hwrote.mono (by omega)
  · exact hwrote.trans (extends_account cfg io.account _ _)

theorem extends_appendToOpen (io : AppendIo) (record : MonitorRecord) (s : Slot) :
    Extends 9 s (appendToOpen cfg io record s).1 := by
  have hflushed := extends_flush cfg io.flush s
  rcases appendToOpen_cases cfg io record s with ⟨s₁, e, -, hflush, hresult⟩ | ⟨s₁, hprep, hresult⟩
  · rw [hflush] at hflushed
    rw [hresult]
    exact Extends.mono hflushed (by omega)
  · have hprepared : Extends 5 s s₁ := by
      cases hprep with
      | asItWas => exact (Extends.refl s).mono (by omega)
      | flushed _ hflush => rwa [hflush] at hflushed
    rw [hresult]
    split
    · exact hprepared.trans (extends_giant cfg io record s₁)
    · exact (hprepared.trans (extends_push cfg io record s₁)).mono (by omega)

theorem extends_leave (io : AppendIo) (s : Slot) : Extends 6 s (leaveFragment cfg io s) := by
  unfold leaveFragment
  split
  · exact (extends_flush cfg io.leave s).trans (extends_emit _ .closed)
  · exact (Extends.refl s).mono (by omega)

theorem openFragmentSlot_log (openOk : Bool) (key : FragmentKey) (s : Slot) :
    (openFragmentSlot cfg openOk key s).1.log = s.log := by
  unfold openFragmentSlot
  split
  · rfl
  · split <;> rfl

/-- **A step adds at most fifteen events.** -/
theorem extends_step (s : Slot) (op : SlotOp) : Extends 15 s (s.step cfg op) := by
  cases op with
  | flush io => exact (extends_flush cfg io s).mono (by omega)
  | close retainIdentity io => exact (extends_close cfg retainIdentity io s).mono (by omega)
  | forkDiscard => exact Extends.mono (extends_emit s .givenUp) (by omega)
  | sweep io => exact (extends_sweep io s).mono (by omega)
  | append io fragmentDir record =>
    have hopened := openFragmentSlot_log cfg io.openOk
      (fragmentDir, record.osPid, record.threadId) (leaveFragment cfg io s)
    have hleft := extends_leave cfg io s
    simp only [Slot.step]
    rcases appendFragmentRecord_cases cfg io fragmentDir record s with
      ⟨-, -, hresult⟩ | ⟨-, -, hresult⟩ | ⟨-, -, -, -, hresult⟩ |
      ⟨-, ⟨s₁, e, hopen, hresult⟩ | ⟨s₁, hopen, hresult⟩⟩
    · rw [hresult]
      exact (Extends.refl s).mono (by omega)
    · rw [hresult]
      exact Extends.mono (extends_emit s .givenUp) (by omega)
    · rw [hresult]
      exact (extends_appendToOpen cfg io record s).mono (by omega)
    · rw [hopen] at hopened
      rw [hresult]
      exact (hleft.trans (.of_log hopened)).mono (by omega)
    · rw [hopen] at hopened
      rw [hresult]
      exact (hleft.trans (.of_log hopened)).trans (extends_appendToOpen cfg io record s₁)

/-- What is in the log stays there. -/
theorem mem_log_run {e : SlotEvent} (ops : List SlotOp) :
    ∀ {s : Slot}, e ∈ s.log → e ∈ (s.run cfg ops).log := by
  induction ops with
  | nil => exact fun h => h
  | cons op rest ih => exact fun h => ih ((extends_step cfg _ op).mem h)

end Growth

end IoMon.SlotMachine
