/-
# No write reaches a retired fragment

A flush may retire the slot under its caller: its bytes bring the fragment to the cap, or the handle
is lost when the committed marker is written.  Everything but `appendFragmentRecord` ends there.
The append goes on: it writes its large frame through the handle that was just closed, or buffers
its record in a slot that no flush and no close will look at again.

  * `NoneRetired` -- what a log should say;
  * `SlotInv` -- what every operation keeps, an append that is not interrupted included;
  * `step_interrupted` -- what an interrupted append leaves in the log;
  * `noneRetired_iff` -- the runs whose log is `NoneRetired` are those with no interrupted append.
-/
import IoMon.Writer.EncodersAgree

namespace IoMon.SlotMachine

open ByteText FixedBuffer MonitorRecordKind MonitorObservationKind

/-! ## 1. What a log should say -/

/-- A write or a buffering happened while the slot was open. -/
def SlotEvent.whileOpen : SlotEvent → Bool
  | wrote _ slotOpen _ _ => slotOpen
  | buffered slotOpen _ => slotOpen
  | closed | givenUp => true

/-- Whether records are buffered that no flush has been given yet.  A handle must not be closed over
them; one that is lost, or left to the parent of a fork, takes them with it. -/
def pendingAfter : Bool → SlotEvent → Option Bool
  | _, .wrote .batch _ _ _ => some false
  | pending, .wrote _ _ _ _ => some pending
  | _, .buffered _ _ => some true
  | pending, .closed => if pending then none else some false
  | _, .givenUp => some false

/-- **Every file write is made while the slot is open, and every record is buffered while it is open
and given to a flush before the handle is closed.** -/
structure NoneRetired (log : List SlotEvent) : Prop where
  whileOpen : ∀ e ∈ log, e.whileOpen = true
  flushed : (log.foldlM pendingAfter false).isSome = true

/-! ## 2. The invariant -/

/-- The frames of some records, one behind the other. -/
def framesOf (rs : List MonitorRecord) : List UInt8 := rs.flatMap encodeFrame

/-- The records that are buffered and owed to a batch write, in the order in which they came.  The
write pays them by being given their frames, last of all, while the slot is open. -/
def owedAfter (owed : List MonitorRecord) : SlotEvent → Option (List MonitorRecord)
  | .wrote .batch slotOpen bytes _ =>
    if slotOpen = true ∧ framesOf owed <:+ bytes then some [] else none
  | .wrote _ _ _ _ => some owed
  | .buffered _ r => some (owed ++ [r])
  | .closed => if owed.isEmpty then some [] else none
  | .givenUp => some []

def Slot.owed (s : Slot) : Option (List MonitorRecord) := s.log.foldlM owedAfter []

/-- What is owed stands last in the batch of an open slot. -/
structure SlotInv (s : Slot) : Prop where
  whileOpen : ∀ e ∈ s.log, e.whileOpen = true
  owed : ∃ rs, s.owed = some rs ∧ framesOf rs <:+ s.batch ∧ (rs ≠ [] → s.isOpen = true)

/-- Nothing is owed. -/
structure Settled (s : Slot) : Prop where
  whileOpen : ∀ e ∈ s.log, e.whileOpen = true
  owed : s.owed = some []

/-- A frame has at least its length prefix. -/
theorem encodeFrame_ne_nil (r : MonitorRecord) : encodeFrame r ≠ [] := by
  intro hnil
  have hlen := inlineFrameLen_eq r
  rw [hnil, inlineFrameLen] at hlen
  exact absurd hlen (by simp)

theorem framesOf_eq_nil {rs : List MonitorRecord} : framesOf rs = [] ↔ rs = [] := by
  refine ⟨fun h => ?_, fun h => by rw [h, framesOf, List.flatMap_nil]⟩
  cases rs with
  | nil => rfl
  | cons r rest =>
    have hframe := List.flatMap_eq_nil_iff.mp h r List.mem_cons_self
    exact absurd hframe (encodeFrame_ne_nil r)

/-- Where what is owed is accounted for, so is whether anything is pending. -/
theorem pending_of_owed (log : List SlotEvent) : ∀ {owed rs : List MonitorRecord},
    log.foldlM owedAfter owed = some rs →
      log.foldlM pendingAfter (!owed.isEmpty) = some (!rs.isEmpty) := by
  induction log with
  | nil =>
    intro owed rs h
    rw [← Option.some.inj h]
    rfl
  | cons e rest ih =>
    intro owed rs h
    rw [List.foldlM_cons, Option.bind_eq_bind, Option.bind_eq_some_iff] at h
    obtain ⟨owed', he, hrest⟩ := h
    have hstep : pendingAfter (!owed.isEmpty) e = some (!owed'.isEmpty) := by
      cases e with
      | wrote kind slotOpen bytes reached =>
        cases kind with
        | batch =>
          rw [owedAfter] at he
          split at he
          · rw [← Option.some.inj he]
            rfl
          · exact absurd he (by simp)
        | giant =>
          rw [← Option.some.inj he]
          rfl
        | marker detail =>
          rw [← Option.some.inj he]
          rfl
      | buffered slotOpen r =>
        rw [← Option.some.inj he]
        simp [pendingAfter]
      | closed =>
        rw [owedAfter] at he
        split at he
        · rename_i hnone
          rw [← Option.some.inj he, hnone]
          rfl
        · exact absurd he (by simp)
      | givenUp =>
        rw [← Option.some.inj he]
        rfl
    rw [List.foldlM_cons, hstep]
    exact ih hrest

section Invariant

variable (cfg : WriterConfig) {s : Slot}

theorem slotInv_start : SlotInv {} := ⟨by simp, [], rfl, List.nil_suffix, by simp⟩

theorem SlotInv.noneRetired (h : SlotInv s) : NoneRetired s.log := by
  obtain ⟨rs, hrs, -⟩ := h.owed
  have hpending : s.log.foldlM pendingAfter false = some (!rs.isEmpty) :=
    pending_of_owed s.log hrs
  refine ⟨h.whileOpen, ?_⟩
  rw [hpending]
  rfl

/-- The log alone says what is owed. -/
theorem Settled.of_log (h : Settled s) {s' : Slot} (hlog : s'.log = s.log) : Settled s' where
  whileOpen := by
    rw [hlog]
    exact h.whileOpen
  owed := by
    rw [Slot.owed, hlog]
    exact h.owed

theorem Settled.inv (h : Settled s) : SlotInv s :=
  ⟨h.whileOpen, [], h.owed, List.nil_suffix, by simp⟩

theorem SlotInv.settled (h : SlotInv s) (hempty : s.isOpen = false ∨ s.batchLen = 0) :
    Settled s := by
  obtain ⟨rs, hrs, hbatch, hopen⟩ := h.owed
  have hnone : rs = [] := by
    rcases hempty with hclosed | hzero
    · by_contra hsome
      exact absurd (hopen hsome) (by simp [hclosed])
    · rw [Slot.batch, hzero, List.take_zero, List.suffix_nil] at hbatch
      exact framesOf_eq_nil.mp hbatch
  exact ⟨h.whileOpen, hnone ▸ hrs⟩

theorem owed_emit {rs : List MonitorRecord} (h : s.owed = some rs) (e : SlotEvent) :
    (s.emit e).owed = owedAfter rs e := by
  rw [Slot.owed] at h
  rw [Slot.owed, Slot.emit, List.foldlM_append, h]
  exact bind_pure (owedAfter rs e)

theorem whileOpen_emit {e : SlotEvent} (h : ∀ e ∈ s.log, e.whileOpen = true)
    (he : e.whileOpen = true) : ∀ e' ∈ (s.emit e).log, e'.whileOpen = true := by
  intro e' hmem
  rcases List.mem_append.mp hmem with hold | hnew
  · exact h e' hold
  · rw [List.mem_singleton.mp hnew]
    exact he

/-- A lost handle takes what is owed with it. -/
theorem SlotInv.givenUp (h : SlotInv s) : Settled (s.emit .givenUp) := by
  obtain ⟨rs, hrs, -⟩ := h.owed
  exact ⟨whileOpen_emit h.whileOpen rfl, owed_emit hrs .givenUp⟩

/-- A batch write pays what is owed. -/
theorem SlotInv.wroteBatch (h : SlotInv s) (hopen : s.isOpen = true) (reached : Nat) :
    Settled (s.emit (.wrote .batch s.isOpen s.batch reached)) := by
  obtain ⟨rs, hrs, hbatch, -⟩ := h.owed
  refine ⟨whileOpen_emit h.whileOpen hopen, ?_⟩
  rw [owed_emit hrs, owedAfter, if_pos ⟨hopen, hbatch⟩]

/-- With nothing owed, no write but a batch's and no close matters. -/
theorem Settled.emit (h : Settled s) {e : SlotEvent} (he : e.whileOpen = true)
    (hafter : owedAfter [] e = some []) : Settled (s.emit e) :=
  ⟨whileOpen_emit h.whileOpen he, (owed_emit h.owed e).trans hafter⟩

/-! ## 3. Markers, accounting, flushes -/

theorem Settled.marker (h : Settled s) (io : MarkerIo) (detail : NimStr) :
    Settled (writeReadTailMarker cfg io detail s) := by
  unfold writeReadTailMarker
  split
  · exact h
  rename_i hopen
  split
  · have hlost := h.emit (e := .givenUp) rfl rfl
    exact hlost.of_log rfl
  · exact h.emit (by simpa [SlotEvent.whileOpen] using hopen) rfl

theorem SlotInv.marker (h : SlotInv s) (io : MarkerIo) (detail : NimStr) :
    SlotInv (writeReadTailMarker cfg io detail s) := by
  unfold writeReadTailMarker
  split
  · exact h
  rename_i hopen
  have hopen : s.isOpen = true := by simpa using hopen
  split
  · have hlost := h.givenUp
    exact Settled.inv (hlost.of_log rfl)
  · obtain ⟨rs, hrs, hheld⟩ := h.owed
    exact ⟨whileOpen_emit h.whileOpen hopen, rs, owed_emit hrs _, hheld⟩

theorem Settled.clear (h : Settled s) (io : MarkerIo) :
    Settled (clearReadingSentinel cfg io s) := by
  unfold clearReadingSentinel
  split
  · exact h
  · have hmarked := h.marker cfg io ReadTailCommittedDetail
    exact hmarked.of_log rfl

theorem SlotInv.mark (h : SlotInv s) (io : MarkerIo) (record : MonitorRecord) :
    SlotInv (markReadingSentinel cfg io record s) := by
  unfold markReadingSentinel
  split
  · exact h
  split
  · exact h
  split
  · exact h
  · have hmarked := h.marker cfg io ReadTailPendingDetail
    exact ⟨hmarked.whileOpen, hmarked.owed⟩

theorem Settled.account (h : Settled s) (io : AccountIo) (written : Nat) :
    Settled (accountFragmentBytes cfg io written s) := by
  unfold accountFragmentBytes
  split
  · exact h
  simp only
  have hcounted : Settled { s with fragmentBytes := s.fragmentBytes + written } :=
    h.of_log rfl
  split
  · exact hcounted
  · have hcap := hcounted.marker cfg io.cap FragmentCapReachedDetail
    have hover : Settled { writeReadTailMarker cfg io.cap FragmentCapReachedDetail
        { s with fragmentBytes := s.fragmentBytes + written } with overCap := true } :=
      hcap.of_log rfl
    have hcleared := hover.clear cfg io.committed
    have hclosed := hcleared.emit (e := .closed) rfl rfl
    exact hclosed.of_log rfl

/-- **A flush of an open slot leaves nothing owed**, whatever became of its write. -/
theorem SlotInv.flush_settled (h : SlotInv s) (hopen : s.isOpen = true) (io : FlushIo) :
    Settled (flushFragmentBatch cfg io s).1 := by
  unfold flushFragmentBatch
  split
  · rename_i hempty
    refine h.settled (.inr ?_)
    simpa [hopen] using hempty
  split
  · have hlost := h.givenUp
    exact hlost.of_log rfl
  have hwrote := h.wroteBatch hopen io.write.reached
  simp only
  split
  · exact hwrote
  split
  · exact hwrote.of_log rfl
  · have hempty : Settled
        { s.emit (.wrote .batch s.isOpen s.batch io.write.reached) with batchLen := 0 } :=
      hwrote.of_log rfl
    exact (hempty.clear cfg io.committed).account cfg io.account _

theorem SlotInv.flush (h : SlotInv s) (io : FlushIo) : SlotInv (flushFragmentBatch cfg io s).1 := by
  by_cases hopen : s.isOpen = true
  · exact (h.flush_settled cfg hopen io).inv
  · have hnoop : flushFragmentBatch cfg io s = (s, none) := by
      rw [flushFragmentBatch, if_pos (by simp [hopen])]
    rw [hnoop]
    exact h

/-! ## 4. The other operations -/

theorem Settled.closeHandle (h : Settled s) : Settled (if s.isOpen then s.emit .closed else s) := by
  split
  · exact h.emit rfl rfl
  · exact h

theorem SlotInv.close (h : SlotInv s) (retainIdentity : Bool) (io : CloseIo) :
    SlotInv (closeFragmentSlot cfg retainIdentity io s) := by
  unfold closeFragmentSlot
  split
  · exact h
  rename_i hopen
  split
  · have hlost := h.givenUp
    exact Settled.inv (hlost.of_log rfl)
  have hflushed := h.flush_settled cfg (by simpa using hopen) io.flush
  have hdone := (hflushed.clear cfg io.committed).closeHandle
  exact Settled.inv (hdone.of_log rfl)

theorem SlotInv.forkDiscard (h : SlotInv s) : SlotInv (discardFragmentSlotAfterFork s) := by
  have hlost := h.givenUp
  exact Settled.inv (hlost.of_log rfl)

theorem SlotInv.sweep (h : SlotInv s) (io : SweepIo) : SlotInv (sweepSlot io s) := by
  unfold sweepSlot
  split
  · rename_i hopen
    rw [Bool.and_eq_true] at hopen
    have hwrote := h.wroteBatch hopen.1 io.write.reached
    simp only
    split
    · have hmarker := hwrote.emit (e := .wrote (.marker ReadTailCommittedDetail) s.isOpen
        (s.committedFrame.bytes.take s.committedFrameLen) io.committed.reached) hopen.1 rfl
      exact Settled.inv (hmarker.of_log rfl)
    · exact Settled.inv (hwrote.of_log rfl)
  · exact h

theorem SlotInv.leave (h : SlotInv s) (io : AppendIo) : Settled (leaveFragment cfg io s) := by
  unfold leaveFragment
  split
  · rename_i hopen
    have hclosed := (h.flush_settled cfg hopen io.leave).emit (e := .closed) rfl rfl
    exact hclosed.of_log rfl
  · rename_i hclosed
    exact h.settled (.inl (by simpa using hclosed))

theorem Settled.opened (h : Settled s) (openOk : Bool) (key : FragmentKey) :
    Settled (openFragmentSlot cfg openOk key s).1 := by
  have hlog := openFragmentSlot_log cfg openOk key s
  refine ⟨?_, ?_⟩
  · rw [hlog]
    exact h.whileOpen
  · rw [Slot.owed, hlog]
    exact h.owed

theorem SlotInv.push (h : SlotInv s) (hopen : s.isOpen = true) (io : AppendIo)
    (record : MonitorRecord) : SlotInv (pushFrame cfg io record s).1 := by
  unfold pushFrame
  cases hstore : inlineEncode record ⟨s.batchBuf, s.batchLen⟩ with
  | none => exact h
  | some cursor =>
    refine SlotInv.mark cfg ?_ io.pending record
    obtain ⟨rs, hrs, hbatch, -⟩ := h.owed
    -- the frame goes behind what is owed
    rw [inlineEncode_eq] at hstore
    obtain ⟨before, hbefore⟩ := hbatch
    have hframes : framesOf (rs ++ [record]) <:+ cursor.filled := by
      refine ⟨before, ?_⟩
      rw [putAll_filled hstore, framesOf, List.flatMap_append, List.flatMap_singleton,
        ← List.append_assoc]
      exact congrArg (· ++ encodeFrame record) hbefore
    exact ⟨whileOpen_emit h.whileOpen hopen, rs ++ [record],
      owed_emit (s := { s with batchBuf := cursor.buf, batchLen := cursor.pos }) hrs _, hframes,
      fun _ => hopen⟩

theorem Settled.giant (h : Settled s) (hopen : s.isOpen = true) (io : AppendIo)
    (record : MonitorRecord) : Settled (writeGiantFrame cfg io record s).1 := by
  have hwrote := h.emit (e := .wrote .giant s.isOpen (encodeFrame record) io.direct.reached)
    hopen rfl
  unfold writeGiantFrame
  simp only
  split
  · exact hwrote
  split
  · exact hwrote
  · exact hwrote.account cfg io.account _

/-! ## 5. The flush in the middle of an append -/

/-- The flush leaves the slot open: its committed marker keeps the handle, and its bytes do not
bring the fragment to the cap. -/
def KeepsOpen (cfg : WriterConfig) (io : FlushIo) (s : Slot) : Prop :=
  0 < s.batchLen → io.handleOk = true → io.write.whole s.batchLen = true →
    (s.readingSentinelActive = true → io.committed.handleOk = true) ∧
      s.fragmentBytes + s.batchLen < cfg.fragmentByteCap

instance (cfg : WriterConfig) (io : FlushIo) (s : Slot) : Decidable (KeepsOpen cfg io s) :=
  inferInstanceAs (Decidable (_ → _))

theorem clear_fields (io : MarkerIo) (s : Slot) :
    (clearReadingSentinel cfg io s).overCap = s.overCap ∧
      (clearReadingSentinel cfg io s).fragmentBytes = s.fragmentBytes ∧
      ((clearReadingSentinel cfg io s).isOpen = true ↔
        s.isOpen = true ∧ (s.readingSentinelActive = true → io.handleOk = true)) := by
  unfold clearReadingSentinel writeReadTailMarker
  cases hactive : s.readingSentinelActive with
  | false => simp
  | true =>
    cases hopen : s.isOpen with
    | false => simp [hopen]
    | true =>
      cases hhandle : io.handleOk with
      | false => simp [Slot.emit]
      | true => simp [Slot.emit, hopen]

theorem account_isOpen {io : AccountIo} {written : Nat} (hcap : s.overCap = false) :
    (accountFragmentBytes cfg io written s).isOpen = true ↔
      s.isOpen = true ∧ s.fragmentBytes + written < cfg.fragmentByteCap := by
  unfold accountFragmentBytes
  cases hopen : s.isOpen with
  | false => simp [hopen]
  | true =>
    rw [hcap, if_neg (by simp)]
    simp only
    split
    · rename_i hbelow
      simp [hbelow]
    · rename_i habove
      simp [Slot.emit, habove]

/-- **When a flush leaves the slot open.** -/
theorem flush_isOpen {io : FlushIo} (hopen : s.isOpen = true)
    (hcap : 0 < s.batchLen → s.overCap = false)
    (hnone : (flushFragmentBatch cfg io s).2 = none) :
    (flushFragmentBatch cfg io s).1.isOpen = true ↔ KeepsOpen cfg io s := by
  unfold flushFragmentBatch at hnone ⊢
  split at hnone
  · rename_i hempty
    have hzero : s.batchLen = 0 := by simpa [hopen] using hempty
    rw [if_pos hempty]
    exact ⟨fun _ hpos => absurd hpos (by omega), fun _ => hopen⟩
  rename_i hempty
  split at hnone
  · exact absurd hnone (by simp)
  rename_i hhandle
  rw [if_neg hempty, if_neg hhandle]
  simp only at hnone ⊢
  split at hnone
  · exact absurd hnone (by simp)
  rename_i hraised
  split at hnone
  · exact absurd hnone (by simp)
  rename_i hshort
  rw [if_neg hraised, if_neg hshort]
  -- the write went through: the committed marker and the account decide
  have hpos : 0 < s.batchLen := by
    rw [Bool.or_eq_true, not_or] at hempty
    exact Nat.pos_of_ne_zero (by simpa using hempty.2)
  have hwhole : io.write.whole s.batchLen = true := by
    simp [WriteOutcome.whole, hraised, Nat.not_lt.mp hshort]
  obtain ⟨hcap', hbytes, hlive⟩ := clear_fields cfg io.committed
    { s.emit (.wrote .batch s.isOpen s.batch io.write.reached) with batchLen := 0 }
  rw [account_isOpen cfg (hcap'.trans (hcap hpos)), hlive, hbytes]
  constructor
  · rintro ⟨⟨-, hmarker⟩, hbelow⟩ - - -
    exact ⟨hmarker, hbelow⟩
  · intro hkeeps
    obtain ⟨hmarker, hbelow⟩ := hkeeps hpos (by simpa using hhandle) hwhole
    exact ⟨⟨hopen, hmarker⟩, hbelow⟩

theorem flush_goesThrough {io : FlushIo} (hopen : s.isOpen = true) (hpos : 0 < s.batchLen)
    (hhandle : io.handleOk = true) (hwhole : io.write.whole s.batchLen = true) :
    (flushFragmentBatch cfg io s).2 = none := by
  simp only [WriteOutcome.whole, Bool.and_eq_true, Bool.not_eq_true', decide_eq_true_iff] at hwhole
  have hnonempty : ¬ ((!s.isOpen || s.batchLen == 0) = true) := by
    rw [hopen, Bool.not_true, Bool.false_or, beq_iff_eq]
    omega
  unfold flushFragmentBatch
  rw [if_neg hnonempty, if_neg (by simp [hhandle])]
  simp only
  rw [if_neg (by simp [hwhole.1]), if_neg (by omega)]

/-- **An append that is not interrupted** keeps what is buffered in the batch of an open slot. -/
theorem SlotInv.appendToOpen (h : SlotInv s) (hopen : s.isOpen = true)
    (hcap : 0 < s.batchLen → s.overCap = false) {io : AppendIo} {record : MonitorRecord}
    (hkeeps : flushesFirst io record s = true → KeepsOpen cfg io.flush s) :
    SlotInv (appendToOpen cfg io record s).1 := by
  rcases appendToOpen_cases cfg io record s with ⟨s₁, e, -, hflush, hresult⟩ | ⟨s₁, hprep, hresult⟩
  · have hinv := h.flush cfg io.flush
    rw [hflush] at hinv
    rw [hresult]
    exact hinv
  rw [hresult]
  cases hprep with
  | asItWas hfirst =>
    -- a frame larger than the buffer is never appended without a flush
    have hfits : ¬ FragmentBatchBufLen < inlineFrameLen record := by
      simp only [flushesFirst, Bool.or_eq_false_iff, decide_eq_false_iff_not] at hfirst
      exact hfirst.1.1
    rw [if_neg hfits]
    exact h.push cfg hopen io record
  | flushed hfirst hflush =>
    have hnone : (flushFragmentBatch cfg io.flush s).2 = none := congrArg Prod.snd hflush
    have hopen₁ := (flush_isOpen cfg hopen hcap hnone).mpr (hkeeps hfirst)
    have hsettled := h.flush_settled cfg hopen io.flush
    rw [hflush] at hopen₁ hsettled
    split
    · exact (hsettled.giant cfg hopen₁ io record).inv
    · exact hsettled.inv.push cfg hopen₁ io record

/-! ## 6. What an interrupted append leaves in the log -/

/-- **What an interrupted append does**: it writes through a handle it has closed, or buffers in a
slot it has closed. -/
theorem appendToOpen_interrupted (hopen : s.isOpen = true) (hcap : s.overCap = false)
    {io : AppendIo} {record : MonitorRecord} (hfirst : flushesFirst io record s = true)
    (hkeeps : ¬ KeepsOpen cfg io.flush s) :
    ∃ e ∈ (appendToOpen cfg io record s).1.log, e.whileOpen = false := by
  obtain ⟨hpos, hhandle, hwhole, hlost⟩ : 0 < s.batchLen ∧ io.flush.handleOk = true ∧
      io.flush.write.whole s.batchLen = true ∧
      ¬ ((s.readingSentinelActive = true → io.flush.committed.handleOk = true) ∧
        s.fragmentBytes + s.batchLen < cfg.fragmentByteCap) := by
    simp only [KeepsOpen, Classical.not_imp] at hkeeps
    exact hkeeps
  have hnone := flush_goesThrough cfg hopen hpos hhandle hwhole
  have hempty := flush_batchLen cfg hopen hnone
  have hclosed : (flushFragmentBatch cfg io.flush s).1.isOpen = false :=
    Bool.not_eq_true _ ▸ fun hstill =>
      hkeeps ((flush_isOpen cfg hopen (fun _ => hcap) hnone).mp hstill)
  rcases appendToOpen_cases cfg io record s with ⟨s₁, e, -, hflush, -⟩ | ⟨s₁, hprep, hresult⟩
  · rw [hflush] at hnone
    exact absurd hnone (by simp)
  cases hprep with
  | asItWas hnot => exact absurd hfirst (by simp [hnot])
  | flushed _ hflush =>
    rw [hflush] at hclosed hempty
    rw [hresult]
    split
    · -- the giant frame
      refine ⟨.wrote .giant s₁.isOpen (encodeFrame record) io.direct.reached, ?_, hclosed⟩
      have hgrows : Extends 3 (s₁.emit (.wrote .giant s₁.isOpen (encodeFrame record)
          io.direct.reached)) (writeGiantFrame cfg io record s₁).1 := by
        unfold writeGiantFrame
        simp only
        split
        · exact (Extends.refl _).mono (by omega)
        split
        · exact (Extends.refl _).mono (by omega)
        · exact extends_account cfg io.account _ _
      exact hgrows.mem (List.mem_append_right _ (List.mem_singleton_self _))
    · -- the record goes into the batch
      rename_i hfits
      have hempty₁ : s₁.batchLen = 0 := hempty
      have hroom : s₁.batchLen + inlineFrameLen record ≤ FragmentBatchBufLen := by omega
      obtain ⟨cursor, hstore, -⟩ := inlineEncode_of_le (c := ⟨s₁.batchBuf, s₁.batchLen⟩) hroom
      refine ⟨.buffered s₁.isOpen record, ?_, hclosed⟩
      unfold pushFrame
      rw [hstore]
      have hgrows := extends_mark cfg io.pending record
        ({ s₁ with batchBuf := cursor.buf, batchLen := cursor.pos }.emit
          (.buffered s₁.isOpen record))
      exact hgrows.mem (List.mem_append_right _ (List.mem_singleton_self _))

/-! ## 7. Runs -/

/-- The step is not an append that its own flush interrupts. -/
def SlotOp.Uninterrupted (s : Slot) : SlotOp → Prop
  | .append io fragmentDir record => s.isOpen = true → io.handleOk = true →
      s.key = (fragmentDir, record.osPid, record.threadId) → s.overCap = false →
      flushesFirst io record s = true → KeepsOpen cfg io.flush s
  | _ => True

/-- No step of the run is interrupted. -/
def UninterruptedRun : Slot → List SlotOp → Prop
  | _, [] => True
  | s, op :: rest => op.Uninterrupted cfg s ∧ UninterruptedRun (s.step cfg op) rest

/-- **The step lemma.** -/
theorem SlotInv.step (h : SlotInv s) {op : SlotOp} (hop : op.Uninterrupted cfg s) :
    SlotInv (s.step cfg op) := by
  cases op with
  | flush io => exact h.flush cfg io
  | close retainIdentity io => exact h.close cfg retainIdentity io
  | forkDiscard => exact h.forkDiscard
  | sweep io => exact h.sweep io
  | append io fragmentDir record =>
    have hsettled := (h.leave cfg io).opened cfg io.openOk
      (fragmentDir, record.osPid, record.threadId)
    simp only [Slot.step]
    rcases appendFragmentRecord_cases cfg io fragmentDir record s with
      ⟨-, -, hresult⟩ | ⟨-, -, hresult⟩ | ⟨hopen, hhandle, hkey, hcap, hresult⟩ |
      ⟨-, ⟨s₁, e, hopened, hresult⟩ | ⟨s₁, hopened, hresult⟩⟩
    · rw [hresult]
      exact h
    · have hlost := h.givenUp
      rw [hresult]
      exact Settled.inv (hlost.of_log rfl)
    · rw [hresult]
      exact h.appendToOpen cfg hopen (fun _ => hcap) (hop hopen hhandle hkey hcap)
    · rw [hopened] at hsettled
      rw [hresult]
      exact hsettled.inv
    · rw [hopened] at hsettled
      rw [hresult]
      -- the batch of a fragment just opened is empty, so no flush interrupts its first append
      have hfields := openFragmentSlot_fields cfg hopened
      exact hsettled.inv.appendToOpen cfg hfields.isOpen
        (fun hpos => absurd hfields.batchLen (Nat.ne_of_gt hpos))
        fun _ hpos => absurd hfields.batchLen (Nat.ne_of_gt hpos)

/-- **An interrupted step** leaves a write or a buffering behind a retirement in the log. -/
theorem step_interrupted {op : SlotOp} (hop : ¬ op.Uninterrupted cfg s) :
    ∃ e ∈ (s.step cfg op).log, e.whileOpen = false := by
  cases op with
  | append io fragmentDir record =>
    simp only [SlotOp.Uninterrupted, Classical.not_imp] at hop
    obtain ⟨hopen, hhandle, hkey, hcap, hfirst, hkeeps⟩ := hop
    have hbad := appendToOpen_interrupted cfg hopen hcap hfirst hkeeps
    simp only [Slot.step]
    rcases appendFragmentRecord_cases cfg io fragmentDir record s with
      ⟨hover, -, -⟩ | ⟨-, hlost, -⟩ | ⟨-, -, -, -, hresult⟩ | ⟨hother, -⟩
    · exact absurd hover (by simp [hcap])
    · exact absurd hlost (by simp [hhandle])
    · rw [hresult]
      exact hbad
    · exact absurd hkey (hother hopen)
  | flush io => exact absurd trivial hop
  | close retainIdentity io => exact absurd trivial hop
  | forkDiscard => exact absurd trivial hop
  | sweep io => exact absurd trivial hop

/-- **The run lemma**: from a state that keeps the invariant, the log of a run is sound exactly when
no step is interrupted. -/
theorem run_noneRetired_iff (ops : List SlotOp) : ∀ {s : Slot}, SlotInv s →
    (NoneRetired (s.run cfg ops).log ↔ UninterruptedRun cfg s ops) := by
  induction ops with
  | nil => exact fun h => ⟨fun _ => trivial, fun _ => h.noneRetired⟩
  | cons op rest ih =>
    intro s h
    have hrun : s.run cfg (op :: rest) = (s.step cfg op).run cfg rest := rfl
    rw [hrun, UninterruptedRun]
    by_cases hop : op.Uninterrupted cfg s
    · rw [ih (h.step cfg hop)]
      exact ⟨fun hrest => ⟨hop, hrest⟩, fun hall => hall.2⟩
    · obtain ⟨e, he, hclosed⟩ := step_interrupted cfg hop
      refine ⟨fun hsound => absurd (hsound.whileOpen e ?_) (by simp [hclosed]), fun hall =>
        absurd hall.1 hop⟩
      exact mem_log_run cfg rest he

end Invariant

/-- **When no write reaches a retired fragment**: in every run, exactly when none of its appends is
interrupted by its own flush. -/
theorem noneRetired_iff (cfg : WriterConfig) (ops : List SlotOp) :
    NoneRetired (Slot.run cfg {} ops).log ↔ UninterruptedRun cfg {} ops :=
  run_noneRetired_iff cfg ops slotInv_start

/-! ## 8. A batch that is too old when the cap is near -/

def done : WriteOutcome := ⟨FragmentBatchBufLen, false⟩

def markerDone : MarkerIo := { reached := FragmentBatchBufLen }

def flushDone : FlushIo where
  write := done
  committed := markerDone
  account := ⟨markerDone, markerDone⟩

/-- Every write is whole, and the handle stays. -/
def appendDone : AppendIo where
  leave := flushDone
  flush := flushDone
  direct := done
  account := ⟨markerDone, markerDone⟩
  pending := markerDone

/-- A process-start record, which needs no sentinel. -/
def startRecord : MonitorRecord := { kind := mrProcessStart, observationKind := moProcessStart }

/-- The second of two records comes more than 100 ms after the first, whose frame alone is past the
cap of one byte. -/
def lateRun : List SlotOp :=
  [.append appendDone (str "/f") startRecord,
    .append { appendDone with stale := true } (str "/f") startRecord]

/-- **A record is buffered in a slot that its own append has retired.** -/
theorem record_buffered_after_retirement :
    ¬ ∀ (cfg : WriterConfig) (ops : List SlotOp), NoneRetired (Slot.run cfg {} ops).log := by
  intro h
  have hrun := (run_noneRetired_iff plainConfig lateRun slotInv_start).mp (h plainConfig lateRun)
  obtain ⟨s₁, cursor, hopened, hpos, -, hfirst⟩ :=
    @append_opens plainConfig {} appendDone (str "/f") startRecord rfl rfl rfl (by decide +kernel)
      (by decide +kernel)
  have hfields := openFragmentSlot_fields plainConfig hopened
  -- the second append flushes the first one's frame, which reaches the cap
  have hsecond := hrun.2.1
  have hstep : Slot.step plainConfig {} (.append appendDone (str "/f") startRecord) =
      { s₁ with batchBuf := cursor.buf, batchLen := cursor.pos }.emit
        (.buffered s₁.isOpen startRecord) := by
    rw [Slot.step, hfirst, markReadingSentinel_unguarded plainConfig _ (by decide)]
  rw [hstep] at hsecond
  have hlen : inlineFrameLen startRecord = 72 := by decide
  have hbatch : 0 < cursor.pos := by omega
  have hflush : flushesFirst { appendDone with stale := true } startRecord
      ({ s₁ with batchBuf := cursor.buf, batchLen := cursor.pos }.emit
        (.buffered s₁.isOpen startRecord)) = true := by
    rw [flushesFirst, Bool.or_eq_true, Bool.and_eq_true]
    exact .inr ⟨decide_eq_true hbatch, rfl⟩
  have hkeeps := hsecond hfields.isOpen rfl hfields.takesKey (hfields.overCap.trans (by simp))
    hflush hbatch rfl (by
      show done.whole cursor.pos = true
      rw [hpos, hlen]
      decide)
  have hbelow : s₁.fragmentBytes + cursor.pos < 1 := hkeeps.2
  omega

end IoMon.SlotMachine
