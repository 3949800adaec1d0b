/-
# Every record is handed to one write, in order

A record waits in the batch until a flush, a close, a change of fragment or the sweep of another
thread hands the batch to a write; a record larger than the batch goes to a write of its own, behind
a flush of what came before it.

An append can also lose its record: it drops it once the fragment is over the cap, and it raises
where the handle is lost, where the fragment cannot be opened or where its own flush fails.  In a
run in which none of this happens, no write raises and no append is interrupted by its own flush,
the bytes handed to the writes and those still in the batch are the frames of the appended records,
each once and in the order of the appends.

A fork drops the batch in the child.  There nothing is handed to a write but what the child recorded
itself, while the parent's batch is handed to one of the parent's writes.
-/
import IoMon.Writer.Registry

namespace IoMon.SlotMachine

open ByteText FixedBuffer

/-! ## 1. What is given to a slot and what it hands over -/

def SlotOp.appends : SlotOp → List MonitorRecord
  | append _ _ r => [r]
  | _ => []

/-- The frames of the records that a run appends. -/
def frames (ops : List SlotOp) : List UInt8 := framesOf (ops.flatMap SlotOp.appends)

/-- The record bytes that a write is given. -/
def SlotEvent.hands : SlotEvent → List UInt8
  | wrote .batch _ bytes _ => bytes
  | wrote .giant _ frame _ => frame
  | _ => []

def handed (log : List SlotEvent) : List UInt8 := log.flatMap SlotEvent.hands

/-- From `s` to `s'` the slot is given some frames, and nothing is lost, repeated or put out of
order. -/
def Delivers (given : List UInt8) (s s' : Slot) : Prop :=
  ∃ events, s'.log = s.log ++ events ∧ s.batch ++ given = handed events ++ s'.batch

/-- Nothing waits in a closed slot. -/
def Held (s : Slot) : Prop := s.isOpen = false → s.batchLen = 0

theorem frames_append (ops ops' : List SlotOp) :
    frames (ops ++ ops') = frames ops ++ frames ops' := by
  rw [frames, List.flatMap_append, framesOf, List.flatMap_append]
  rfl

section Delivery

variable (cfg : WriterConfig) {s s' t : Slot} {given given' : List UInt8}

theorem batch_nil (h : s.batchLen = 0) : s.batch = [] := by
  rw [Slot.batch, h, List.take_zero]

theorem Delivers.of_same (hlog : s'.log = s.log) (hbatch : s'.batch = s.batch) :
    Delivers [] s s' :=
  ⟨[], by rw [hlog, List.append_nil], by simp [handed, hbatch]⟩

theorem Delivers.refl (s : Slot) : Delivers [] s s := .of_same rfl rfl

theorem Delivers.trans (h : Delivers given s s') (h' : Delivers given' s' t) :
    Delivers (given ++ given') s t := by
  obtain ⟨es, hlog, hbytes⟩ := h
  obtain ⟨es', hlog', hbytes'⟩ := h'
  refine ⟨es ++ es', by rw [hlog', hlog, List.append_assoc], ?_⟩
  calc s.batch ++ (given ++ given')
      = (s.batch ++ given) ++ given' := (List.append_assoc ..).symm
    _ = handed es ++ (s'.batch ++ given') := by rw [hbytes, List.append_assoc]
    _ = (handed es ++ handed es') ++ t.batch := by rw [hbytes', List.append_assoc]
    _ = handed (es ++ es') ++ t.batch := by rw [handed, handed, handed, List.flatMap_append]

/-- A part that is given nothing may come before or behind. -/
theorem Delivers.behind (h : Delivers given s s') (h' : Delivers [] s' t) : Delivers given s t := by
  simpa using h.trans h'

/-- One event, with what it does to the batch. -/
theorem Delivers.event {e : SlotEvent} (hlog : s'.log = s.log ++ [e])
    (hbytes : s.batch ++ given = e.hands ++ s'.batch) : Delivers given s s' :=
  ⟨[e], hlog, by simpa [handed] using hbytes⟩

/-- An empty batch may be emptied. -/
theorem Delivers.emptied (h : s.batchLen = 0) (h' : s'.batchLen = 0) (hlog : s'.log = s.log) :
    Delivers [] s s' :=
  .of_same hlog (by rw [batch_nil h, batch_nil h'])

/-! ## 2. The parts of the operations -/

theorem delivers_marker (io : MarkerIo) (detail : NimStr) (s : Slot) :
    Delivers [] s (writeReadTailMarker cfg io detail s) := by
  unfold writeReadTailMarker
  split
  · exact .refl s
  split
  · exact .event (e := .givenUp) rfl (List.append_nil _)
  · exact .event rfl (List.append_nil _)

theorem delivers_mark (io : MarkerIo) (record : MonitorRecord) (s : Slot) :
    Delivers [] s (markReadingSentinel cfg io record s) := by
  unfold markReadingSentinel
  split
  · exact .refl s
  split
  · exact .refl s
  split
  · exact .refl s
  · exact (delivers_marker cfg io ReadTailPendingDetail s).trans (.of_same rfl rfl)

theorem delivers_clear (io : MarkerIo) (s : Slot) :
    Delivers [] s (clearReadingSentinel cfg io s) := by
  unfold clearReadingSentinel
  split
  · exact .refl s
  · exact (delivers_marker cfg io ReadTailCommittedDetail s).trans (.of_same rfl rfl)

/-- The cap empties the batch, which an account only ever meets empty. -/
theorem delivers_account (io : AccountIo) (written : Nat) (hempty : s.batchLen = 0) :
    Delivers [] s (accountFragmentBytes cfg io written s) := by
  unfold accountFragmentBytes
  split
  · exact .refl s
  simp only
  have hcounted : Delivers [] s { s with fragmentBytes := s.fragmentBytes + written } :=
    .of_same rfl rfl
  split
  · exact hcounted
  · have hcap := hcounted.trans (delivers_marker cfg io.cap FragmentCapReachedDetail _)
    have hover : Delivers [] s { writeReadTailMarker cfg io.cap FragmentCapReachedDetail
        { s with fragmentBytes := s.fragmentBytes + written } with overCap := true } :=
      hcap.trans (.of_same rfl rfl)
    refine (hover.trans (delivers_clear cfg io.committed _)).trans
      (.event (e := .closed) rfl ?_)
    -- the markers have left the batch as empty as it was
    have hstill : (clearReadingSentinel cfg io.committed
        { writeReadTailMarker cfg io.cap FragmentCapReachedDetail
          { s with fragmentBytes := s.fragmentBytes + written } with
          overCap := true }).batchLen = 0 := by
      rw [clearReadingSentinel_batchLen]
      exact (writeReadTailMarker_batchLen cfg io.cap FragmentCapReachedDetail _).trans hempty
    rw [batch_nil hstill]
    rfl

/-- A batch write hands the batch over and leaves it empty. -/
theorem delivers_batch (s : Slot) (reached : Nat) :
    Delivers [] s { s.emit (.wrote .batch s.isOpen s.batch reached) with batchLen := 0 } := by
  refine .event rfl ?_
  rw [@batch_nil { s.emit (.wrote .batch s.isOpen s.batch reached) with batchLen := 0 } rfl]
  rfl

/-- The handle is there, and the write returns. -/
def FlushIo.Sure (io : FlushIo) : Prop := io.handleOk = true ∧ io.write.raised = false

instance (io : FlushIo) : Decidable io.Sure := inferInstanceAs (Decidable (_ ∧ _))

/-- **A flush hands the batch over once**, also when the write comes up short. -/
theorem delivers_flush {io : FlushIo} (hsure : io.Sure) (s : Slot) :
    Delivers [] s (flushFragmentBatch cfg io s).1 := by
  unfold flushFragmentBatch
  split
  · exact .refl s
  rw [if_neg (by simp [hsure.1])]
  have hwrote := delivers_batch s io.write.reached
  simp only [hsure.2, Bool.false_eq_true, if_false]
  split
  · exact hwrote
  · refine (hwrote.trans (delivers_clear cfg io.committed _)).trans (delivers_account cfg _ _ ?_)
    rw [clearReadingSentinel_batchLen]

/-- Behind a flush the batch is empty. -/
theorem flush_empties {io : FlushIo} (hsure : io.Sure) (hopen : s.isOpen = true) :
    (flushFragmentBatch cfg io s).1.batchLen = 0 := by
  unfold flushFragmentBatch
  split
  · rename_i hempty
    simpa [hopen] using hempty
  rw [if_neg (by simp [hsure.1])]
  simp only [hsure.2, Bool.false_eq_true, if_false]
  split
  · rfl
  · refine accountFragmentBytes_batchLen cfg io.account _ ?_
    rw [clearReadingSentinel_batchLen]

theorem delivers_push (io : AppendIo) (record : MonitorRecord)
    (hroom : s.batchLen + inlineFrameLen record ≤ FragmentBatchBufLen) :
    Delivers (encodeFrame record) s (pushFrame cfg io record s).1 := by
  obtain ⟨cursor, hstore, -, hfilled⟩ :=
    inlineEncode_of_le (c := ⟨s.batchBuf, s.batchLen⟩) (r := record) hroom
  unfold pushFrame
  rw [hstore]
  have hbuffered : Delivers (encodeFrame record) s
      ({ s with batchBuf := cursor.buf, batchLen := cursor.pos }.emit
        (.buffered s.isOpen record)) := .event rfl hfilled.symm
  exact hbuffered.behind (delivers_mark cfg io.pending record _)

theorem delivers_giant (io : AppendIo) (record : MonitorRecord) (hempty : s.batchLen = 0) :
    Delivers (encodeFrame record) s (writeGiantFrame cfg io record s).1 := by
  have hwrote : Delivers (encodeFrame record) s
      (s.emit (.wrote .giant s.isOpen (encodeFrame record) io.direct.reached)) := by
    refine .event rfl ?_
    rw [emit_batch, batch_nil hempty, List.append_nil]
    rfl
  unfold writeGiantFrame
  simp only
  split
  · exact hwrote
  split
  · exact hwrote
  · exact hwrote.behind (delivers_account cfg io.account _ hempty)

/-! ## 3. The operations -/

/-- The append takes its record: it is not dropped over the cap, the fragment it may need to open
opens, the handle stays, and its own flush is whole. -/
structure Takes (s : Slot) (io : AppendIo) (fragmentDir : NimStr) (record : MonitorRecord) :
    Prop where
  under : ¬ (s.overCap = true ∧ s.key = (fragmentDir, record.osPid, record.threadId))
  opens : io.openOk = true ∧ fragmentDir.length < FragmentDirBufLen
  handle : io.handleOk = true ∧ io.pending.handleOk = true
  leave : io.leave.Sure
  flush : io.flush.Sure
  whole : s.isOpen = true → s.key = (fragmentDir, record.osPid, record.threadId) →
    flushesFirst io record s = true → io.flush.write.whole s.batchLen = true

/-- The operation loses no record, meets no lost handle and no write that raises. -/
def SlotOp.Sure (s : Slot) : SlotOp → Prop
  | .append io fragmentDir record => Takes s io fragmentDir record
  | .flush io => io.Sure
  | .close _ io => io.handleOk = true ∧ io.flush.Sure
  | .forkDiscard => False
  | .sweep _ => True

theorem mark_isOpen {io : MarkerIo} (hhandle : io.handleOk = true) (record : MonitorRecord)
    (s : Slot) : (markReadingSentinel cfg io record s).isOpen = s.isOpen := by
  have hmarker (detail : NimStr) : (writeReadTailMarker cfg io detail s).isOpen = s.isOpen := by
    unfold writeReadTailMarker
    split
    · rfl
    · rw [if_neg (by simp [hhandle])]
      rfl
  unfold markReadingSentinel
  split
  · rfl
  split
  · rfl
  split
  · rfl
  · exact hmarker ReadTailPendingDetail

theorem push_isOpen {io : AppendIo} (hhandle : io.pending.handleOk = true)
    (record : MonitorRecord) (s : Slot) : (pushFrame cfg io record s).1.isOpen = s.isOpen := by
  unfold pushFrame
  split
  · rfl
  · exact mark_isOpen cfg hhandle record _

theorem giant_batchLen (io : AppendIo) (record : MonitorRecord) (hempty : s.batchLen = 0) :
    (writeGiantFrame cfg io record s).1.batchLen = 0 := by
  unfold writeGiantFrame
  simp only
  split
  · exact hempty
  split
  · exact hempty
  · exact accountFragmentBytes_batchLen cfg io.account _ hempty

/-- A flush that writes the whole batch raises nothing. -/
theorem flush_whole {io : FlushIo} (hsure : io.Sure) (hopen : s.isOpen = true)
    (hwhole : io.write.whole s.batchLen = true) : (flushFragmentBatch cfg io s).2 = none := by
  by_cases hpos : 0 < s.batchLen
  · exact flush_goesThrough cfg hopen hpos hsure.1 hwhole
  · have hzero : s.batchLen = 0 := by omega
    rw [flushFragmentBatch, if_pos (by simp [hzero])]

/-- **An append to an open fragment** delivers its frame, and leaves nothing behind in a slot that
it closes. -/
theorem delivers_appendToOpen {io : AppendIo} {record : MonitorRecord} (hopen : s.isOpen = true)
    (hcap : 0 < s.batchLen → s.overCap = false) (hflush : io.flush.Sure)
    (hpending : io.pending.handleOk = true)
    (hwhole : flushesFirst io record s = true → io.flush.write.whole s.batchLen = true)
    (hkeeps : flushesFirst io record s = true → KeepsOpen cfg io.flush s) :
    Delivers (encodeFrame record) s (appendToOpen cfg io record s).1 ∧
      Held (appendToOpen cfg io record s).1 := by
  have hdelivers := delivers_flush cfg hflush s
  have hempties := flush_empties cfg hflush hopen
  rcases appendToOpen_cases cfg io record s with ⟨s₁, e, hfirst, hraised, -⟩ | ⟨s₁, hprep, hresult⟩
  · have hnone := flush_whole cfg hflush hopen (hwhole hfirst)
    exact absurd (congrArg Prod.snd hraised) (by simp [hnone])
  rw [hresult]
  have hprepared : Delivers [] s s₁ := by
    cases hprep with
    | asItWas => exact .refl s
    | flushed _ hdone => rwa [hdone] at hdelivers
  split
  · -- a frame larger than the buffer is never written without a flush
    rename_i hgiant
    have hempty : s₁.batchLen = 0 := by
      cases hprep with
      | asItWas hfirst =>
        simp only [flushesFirst, Bool.or_eq_false_iff, decide_eq_false_iff_not] at hfirst
        exact absurd hgiant hfirst.1.1
      | flushed _ hdone => rwa [hdone] at hempties
    exact ⟨hprepared.trans (delivers_giant cfg io record hempty),
      fun _ => giant_batchLen cfg io record hempty⟩
  · rename_i hfits
    have hroom := (hprep.fits cfg hopen (Nat.not_lt.mp hfits)).1
    have hstays : s₁.isOpen = true := by
      cases hprep with
      | asItWas => exact hopen
      | flushed hfirst hdone =>
        have hstill := (flush_isOpen cfg hopen hcap (congrArg Prod.snd hdone)).mpr (hkeeps hfirst)
        rwa [hdone] at hstill
    refine ⟨hprepared.trans (delivers_push cfg io record hroom), fun hclosed => ?_⟩
    rw [push_isOpen cfg hpending, hstays] at hclosed
    exact absurd hclosed (by simp)

theorem delivers_leave {io : AppendIo} (hsure : io.leave.Sure) (hheld : Held s) :
    Delivers [] s (leaveFragment cfg io s) ∧ (leaveFragment cfg io s).batchLen = 0 := by
  unfold leaveFragment
  split
  · rename_i hopen
    have hempty := flush_empties cfg hsure hopen
    refine ⟨(delivers_flush cfg hsure s).behind (.event (e := .closed) rfl ?_), hempty⟩
    exact List.append_nil _
  · rename_i hclosed
    exact ⟨.refl s, hheld (by simpa using hclosed)⟩

theorem delivers_close {io : CloseIo} (retainIdentity : Bool) (hhandle : io.handleOk = true)
    (hsure : io.flush.Sure) (hheld : Held s) :
    Delivers [] s (closeFragmentSlot cfg retainIdentity io s) ∧
      Held (closeFragmentSlot cfg retainIdentity io s) := by
  unfold closeFragmentSlot
  split
  · exact ⟨.refl s, hheld⟩
  rename_i hopen
  rw [if_neg (by simp [hhandle])]
  refine ⟨?_, fun _ => rfl⟩
  have hcleared := (delivers_flush cfg hsure s).behind (delivers_clear cfg io.committed _)
  have hempty : (clearReadingSentinel cfg io.committed
      (flushFragmentBatch cfg io.flush s).1).batchLen = 0 := by
    rw [clearReadingSentinel_batchLen]
    exact flush_empties cfg hsure (by simpa using hopen)
  -- the handle is closed over an empty batch
  have hended (u : Slot) : Delivers [] u (if u.isOpen then u.emit .closed else u) := by
    split
    · exact .event (e := .closed) rfl (List.append_nil _)
    · exact .refl u
  have hended_len (u : Slot) : (if u.isOpen then u.emit .closed else u).batchLen = u.batchLen := by
    split <;> rfl
  refine (hcleared.behind (hended _)).behind (.emptied ?_ rfl rfl)
  rw [hended_len, hempty]

theorem delivers_sweep (io : SweepIo) (hheld : Held s) :
    Delivers [] s (sweepSlot io s) ∧ Held (sweepSlot io s) := by
  unfold sweepSlot
  split
  · refine ⟨?_, fun _ => rfl⟩
    have hwrote := delivers_batch s io.write.reached
    simp only
    split
    · exact hwrote.behind (.event (e := .wrote (.marker ReadTailCommittedDetail) s.isOpen
        (s.committedFrame.bytes.take s.committedFrameLen) io.committed.reached) rfl rfl)
    · exact hwrote
  · exact ⟨.refl s, hheld⟩

/-- **The step lemma.** -/
theorem delivers_step {op : SlotOp} (hheld : Held s) (hsure : op.Sure s)
    (hwhole : op.Uninterrupted cfg s) :
    Delivers (framesOf op.appends) s (s.step cfg op) ∧ Held (s.step cfg op) := by
  cases op with
  | flush io =>
    refine ⟨delivers_flush cfg hsure s, fun _ => ?_⟩
    by_cases hopen : s.isOpen = true
    · exact flush_empties cfg hsure hopen
    · have hnoop : flushFragmentBatch cfg io s = (s, none) := by
        rw [flushFragmentBatch, if_pos (by simp [hopen])]
      rw [Slot.step, hnoop]
      exact hheld (by simpa using hopen)
  | close retainIdentity io => exact delivers_close cfg retainIdentity hsure.1 hsure.2 hheld
  | forkDiscard => exact hsure.elim
  | sweep io => exact delivers_sweep io hheld
  | append io fragmentDir record =>
    obtain ⟨hleft, hempty⟩ := delivers_leave cfg hsure.leave hheld
    have hframe : framesOf (SlotOp.append io fragmentDir record).appends = encodeFrame record :=
      List.flatMap_singleton ..
    rw [hframe]
    simp only [Slot.step]
    rcases appendFragmentRecord_cases cfg io fragmentDir record s with
      ⟨hover, hkey, -⟩ | ⟨-, hlost, -⟩ | ⟨hopen, hhandle, hkey, hcap, hresult⟩ |
      ⟨-, ⟨s₁, e, hopened, -⟩ | ⟨s₁, hopened, hresult⟩⟩
    · exact absurd ⟨hover, hkey⟩ hsure.under
    · exact absurd hsure.handle.1 (by simp [hlost])
    · rw [hresult]
      exact delivers_appendToOpen cfg hopen (fun _ => hcap) hsure.flush hsure.handle.2
        (hsure.whole hopen hkey) (hwhole hopen hhandle hkey hcap)
    · have hdir : (fragmentDir, record.osPid, record.threadId).1.length < FragmentDirBufLen :=
        hsure.opens.2
      obtain ⟨s₂, hopens⟩ := openFragmentSlot_ok cfg hdir (leaveFragment cfg io s)
      rw [hsure.opens.1, hopens] at hopened
      exact absurd (congrArg Prod.snd hopened) (by simp)
    · rw [hresult]
      -- the batch of a fragment just opened is empty, so no flush interrupts its first append
      have hfields := openFragmentSlot_fields cfg hopened
      have hfresh : Delivers [] (leaveFragment cfg io s) s₁ :=
        .emptied hempty hfields.batchLen hfields.log
      have hnew : ∀ {P : Prop}, 0 < s₁.batchLen → P := fun hpos =>
        absurd hfields.batchLen (Nat.ne_of_gt hpos)
      have hnothing : io.flush.write.whole s₁.batchLen = true := by
        simp [WriteOutcome.whole, hsure.flush.2, hfields.batchLen]
      obtain ⟨hdelivers, hheld₁⟩ := delivers_appendToOpen cfg hfields.isOpen hnew hsure.flush
        hsure.handle.2 (fun _ => hnothing) fun _ hpos => hnew hpos
      exact ⟨(hleft.behind hfresh).trans hdelivers, hheld₁⟩

/-! ## 4. Runs -/

/-- A run of appends, flushes, closes, changes of fragment and sweeps that loses no record, meets no
lost handle and no raising write, and has no append that its own flush interrupts. -/
def SureRun : Slot → List SlotOp → Prop
  | _, [] => True
  | s, op :: rest => (op.Sure s ∧ op.Uninterrupted cfg s) ∧ SureRun (s.step cfg op) rest

/-- **The run lemma.** -/
theorem delivers_run (ops : List SlotOp) : ∀ {s : Slot}, Held s → SureRun cfg s ops →
    Delivers (frames ops) s (s.run cfg ops) ∧ Held (s.run cfg ops) := by
  induction ops with
  | nil => exact fun hheld _ => ⟨.refl _, hheld⟩
  | cons op rest ih =>
    intro s hheld hrun
    obtain ⟨hstep, hheld'⟩ := delivers_step cfg hheld hrun.1.1 hrun.1.2
    obtain ⟨hrest, hend⟩ := ih hheld' hrun.2
    have hframes : frames (op :: rest) = framesOf op.appends ++ frames rest := by
      rw [frames, List.flatMap_cons, framesOf, List.flatMap_append]
      rfl
    rw [hframes]
    exact ⟨hstep.trans hrest, hend⟩

theorem held_start : Held {} := fun _ => rfl

/-- **Every record is handed to one write, in order**: the frames of all the records appended are
the bytes that the writes were given and those that wait, and in a closed slot nothing waits. -/
theorem handed_of_run (ops : List SlotOp) (hrun : SureRun cfg {} ops) :
    frames ops = handed (Slot.run cfg {} ops).log ++ (Slot.run cfg {} ops).batch ∧
      ((Slot.run cfg {} ops).isOpen = false →
        frames ops = handed (Slot.run cfg {} ops).log) := by
  obtain ⟨⟨events, hlog, hbytes⟩, hheld⟩ := delivers_run cfg ops held_start hrun
  have hlog : (Slot.run cfg {} ops).log = events := hlog
  have hbytes : frames ops = handed events ++ (Slot.run cfg {} ops).batch := hbytes
  rw [hlog]
  refine ⟨hbytes, fun hclosed => ?_⟩
  rw [hbytes, batch_nil (hheld hclosed), List.append_nil]

/-- A fragment may grow to a mebibyte. -/
def roomyConfig : WriterConfig := ⟨[], 2 ^ 20, by decide⟩

/-- Two records, and a close behind each. -/
def shortRun : List SlotOp :=
  [.append appendDone (str "/f") startRecord, .close true closeDone,
    .append appendDone (str "/f") guardedRecord, .close false closeDone]

/-- An append into a closed slot under the cap takes its record. -/
theorem takes_first {record : MonitorRecord} (hclosed : s.isOpen = false)
    (hunder : s.overCap = false) : Takes s appendDone (str "/f") record where
  under h := absurd h.1 (by simp [hunder])
  opens := ⟨rfl, by decide⟩
  handle := ⟨rfl, rfl⟩
  leave := ⟨rfl, rfl⟩
  flush := ⟨rfl, rfl⟩
  whole hopen := absurd hopen (by simp [hclosed])

theorem close_sure (retainIdentity : Bool) : (SlotOp.close retainIdentity closeDone).Sure s :=
  ⟨rfl, rfl, rfl⟩

theorem step_close_isOpen (retainIdentity : Bool) (io : CloseIo) (s : Slot) :
    (s.step cfg (.close retainIdentity io)).isOpen = false :=
  close_isOpen cfg retainIdentity io s

theorem shortRun_under :
    (Slot.run roomyConfig {} (shortRun.take 2)).overCap = false := by decide +kernel

theorem shortRun_sure : SureRun roomyConfig {} shortRun := by
  have hclosed : (Slot.run roomyConfig {} (shortRun.take 2)).isOpen = false :=
    step_close_isOpen roomyConfig true closeDone (Slot.run roomyConfig {} (shortRun.take 1))
  exact ⟨⟨takes_first rfl rfl, fun hopen => absurd hopen (by decide)⟩,
    ⟨close_sure true, trivial⟩,
    ⟨takes_first hclosed shortRun_under,
      fun hopen => absurd (hclosed.symm.trans hopen) (by decide)⟩,
    ⟨close_sure false, trivial⟩, trivial⟩

theorem shortRun_frames :
    frames shortRun = encodeFrame startRecord ++ encodeFrame guardedRecord := by
  simp [frames, framesOf, shortRun, SlotOp.appends]

theorem handed_shortRun : handed (Slot.run roomyConfig {} shortRun).log =
    encodeFrame startRecord ++ encodeFrame guardedRecord := by
  have hclosed : (Slot.run roomyConfig {} shortRun).isOpen = false :=
    step_close_isOpen roomyConfig false closeDone (Slot.run roomyConfig {} (shortRun.take 3))
  rw [← (handed_of_run roomyConfig shortRun shortRun_sure).2 hclosed, shortRun_frames]

/-! ## 5. A fork -/

/-- **A fork splits what is recorded.**  What waited in the batch at the fork is handed to a write
by the parent, before what the parent records later; in the child nothing is handed to a write but
what the child has recorded itself.  Where both have closed their fragments, all of it has been. -/
theorem fork_splits {before parentOps childOps : List SlotOp} {atFork parent child : Slot}
    (hfork : Slot.run cfg {} before = atFork) (hparent : atFork.run cfg parentOps = parent)
    (hchild : (discardFragmentSlotAfterFork atFork).run cfg childOps = child)
    (hbefore : SureRun cfg {} before) (hsure : SureRun cfg atFork parentOps)
    (hsure' : SureRun cfg (discardFragmentSlotAfterFork atFork) childOps)
    (hdone : parent.isOpen = false) (hdone' : child.isOpen = false) :
    (∃ events, parent.log = atFork.log ++ events ∧
        handed events = atFork.batch ++ frames parentOps) ∧
      handed parent.log = frames (before ++ parentOps) ∧
      ∃ events, child.log = atFork.log ++ .givenUp :: events ∧ handed events = frames childOps := by
  subst hfork hparent hchild
  obtain ⟨⟨first, hfirst, hfirstBytes⟩, hheld⟩ := delivers_run cfg before held_start hbefore
  obtain ⟨⟨events, hlog, hbytes⟩, hparentHeld⟩ := delivers_run cfg parentOps hheld hsure
  have hforked : Held (discardFragmentSlotAfterFork (Slot.run cfg {} before)) := fun _ => rfl
  obtain ⟨⟨events', hlog', hbytes'⟩, hchildHeld⟩ := delivers_run cfg childOps hforked hsure'
  rw [batch_nil (hparentHeld hdone), List.append_nil] at hbytes
  rw [batch_nil (hchildHeld hdone'), batch_nil rfl, List.nil_append, List.append_nil] at hbytes'
  refine ⟨⟨events, hlog, hbytes.symm⟩, ?_, events', ?_, hbytes'.symm⟩
  · -- what was handed before the fork, and what waited there
    have hstart : frames before = handed first ++ (Slot.run cfg {} before).batch := hfirstBytes
    have hfirst : (Slot.run cfg {} before).log = first := hfirst
    rw [hlog, hfirst, frames_append, hstart, handed, List.flatMap_append, List.append_assoc, hbytes]
    rfl
  · rw [hlog', discardFragmentSlotAfterFork, Slot.emit, List.append_assoc, List.singleton_append]

/-- One record waits at the fork; then the parent and the child record another and close. -/
def forkedSlot : Slot := Slot.run roomyConfig {} [.append appendDone (str "/f") startRecord]

def recordAndClose : List SlotOp :=
  [.append appendDone (str "/f") guardedRecord, .close false closeDone]

theorem forkedSlot_facts : forkedSlot.overCap = false ∧
    flushesFirst appendDone guardedRecord forkedSlot = false ∧
    forkedSlot.batch = encodeFrame startRecord := by decide +kernel

theorem forkedSlot_sure : SureRun roomyConfig forkedSlot recordAndClose := by
  obtain ⟨hunder, hfits, -⟩ := forkedSlot_facts
  have htakes : Takes forkedSlot appendDone (str "/f") guardedRecord :=
    { under := fun h => absurd h.1 (by simp [hunder]), opens := ⟨rfl, by decide⟩,
      handle := ⟨rfl, rfl⟩, leave := ⟨rfl, rfl⟩, flush := ⟨rfl, rfl⟩,
      whole := fun _ _ hfirst => absurd hfirst (by simp [hfits]) }
  exact ⟨⟨htakes, fun _ _ _ _ hfirst => absurd hfirst (by simp [hfits])⟩,
    ⟨close_sure false, trivial⟩, trivial⟩

theorem fork_splits_once :
    handed (forkedSlot.run roomyConfig recordAndClose).log =
      encodeFrame startRecord ++ encodeFrame guardedRecord ∧
    ∃ events, ((discardFragmentSlotAfterFork forkedSlot).run roomyConfig recordAndClose).log =
        forkedSlot.log ++ .givenUp :: events ∧ handed events = encodeFrame guardedRecord := by
  have hbefore : SureRun roomyConfig {} [.append appendDone (str "/f") startRecord] :=
    ⟨⟨takes_first rfl rfl, fun hopen => absurd hopen (by decide)⟩, trivial⟩
  have hchild : SureRun roomyConfig (discardFragmentSlotAfterFork forkedSlot) recordAndClose :=
    ⟨⟨takes_first rfl rfl, fun hopen => absurd hopen (by decide)⟩,
      ⟨close_sure false, trivial⟩, trivial⟩
  have hframes : frames recordAndClose = encodeFrame guardedRecord := by
    simp [frames, framesOf, recordAndClose, SlotOp.appends]
  have hfork : Slot.run roomyConfig {} [.append appendDone (str "/f") startRecord] = forkedSlot :=
    rfl
  have hdone (s : Slot) : (s.run roomyConfig recordAndClose).isOpen = false :=
    step_close_isOpen roomyConfig false closeDone _
  obtain ⟨-, hparent, hchildEvents⟩ := fork_splits roomyConfig hfork rfl rfl hbefore
    forkedSlot_sure hchild (hdone _) (hdone _)
  rw [hframes] at hchildEvents
  refine ⟨?_, hchildEvents⟩
  rw [hparent, frames_append, hframes]
  simp [frames, framesOf, SlotOp.appends]

end Delivery

end IoMon.SlotMachine
