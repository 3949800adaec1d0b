/-
# Kill-before-flush honesty of the fragment slot

A kill loses the batch.  What the merge has to see then is an unmatched pending marker, and it
does as long as a committed marker is only written over a batch that has reached the file.  Three
paths break that: a short write drops the batch and leaves the sentinel armed for the next flush
to retire; a close retires it whatever its flush raised; and the signal-safe flush writes its
committed frame whether or not the sentinel was armed.

  * `SlotSafe` -- the steps that do not reach one of these paths;
  * `SlotInv` -- what they keep, over the records that are in the batch;
  * `killHonest_of_safe` -- every state of a safe run is honest.
-/
import IoMon.Writer.Slot

namespace IoMon

open ByteText ByteCodec MonitorRecordKind MonitorObservationKind

/-! ## 1. Safe steps -/

/-- The operation writes no committed marker over a batch that has not reached the file, and none
over an unarmed sentinel while a pending marker is outstanding. -/
def SlotOp.Safe (cfg : SlotConfig) (s : FragmentSlot) : SlotOp → Prop
  | append _ r => FitsWire r ∧ isCommittedMarker r = false
  | flush _ => True
  | close _ io => s.isOpen = true → io.handleOk = true → s.readingSentinelActive = true →
      io.write.whole s.batch.length = true
  | sweep _ => True
  | sigSafe identityMatches w => s.isOpen = true → identityMatches = true →
      (s.readingSentinelActive = true → s.batch.length ≤ w.reached) ∧
      (s.readingSentinelActive = false →
        pendingCount s.records cfg.key ≤ committedCount s.records cfg.key)

/-- The file is untorn, no batch was dropped under an armed sentinel, and no committed marker is
ahead of its pending one; and the operation is safe there. -/
def SlotSafe (cfg : SlotConfig) (s : FragmentSlot) (op : SlotOp) : Prop :=
  s.clean = true ∧ (s.readingSentinelActive = true → s.batch ≠ []) ∧
    committedCount s.records cfg.key ≤ pendingCount s.records cfg.key ∧ op.Safe cfg s

instance (cfg : SlotConfig) (s : FragmentSlot) : ∀ op : SlotOp, Decidable (op.Safe cfg s)
  | .append _ r => inferInstanceAs (Decidable (FitsWire r ∧ isCommittedMarker r = false))
  | .flush _ => inferInstanceAs (Decidable True)
  | .close _ io => inferInstanceAs (Decidable (s.isOpen = true → io.handleOk = true →
      s.readingSentinelActive = true → io.write.whole s.batch.length = true))
  | .sweep _ => inferInstanceAs (Decidable True)
  | .sigSafe identityMatches w =>
    inferInstanceAs (Decidable (s.isOpen = true → identityMatches = true →
      (s.readingSentinelActive = true → s.batch.length ≤ w.reached) ∧
      (s.readingSentinelActive = false →
        pendingCount s.records cfg.key ≤ committedCount s.records cfg.key)))

instance (cfg : SlotConfig) (s : FragmentSlot) (op : SlotOp) : Decidable (SlotSafe cfg s op) :=
  inferInstanceAs (Decidable (_ ∧ _ ∧ _ ∧ op.Safe cfg s))

/-- Every step of the run is safe. -/
def SlotSafeRun (cfg : SlotConfig) : FragmentSlot → List SlotOp → Prop
  | _, [] => True
  | s, op :: rest => SlotSafe cfg s op ∧ SlotSafeRun cfg (s.step cfg op) rest

instance (cfg : SlotConfig) : ∀ (s : FragmentSlot) (ops : List SlotOp),
    Decidable (SlotSafeRun cfg s ops)
  | _, [] => inferInstanceAs (Decidable True)
  | s, op :: rest =>
    have : Decidable (SlotSafeRun cfg (s.step cfg op) rest) :=
      instDecidableSlotSafeRun cfg (s.step cfg op) rest
    inferInstanceAs (Decidable (SlotSafe cfg s op ∧ SlotSafeRun cfg (s.step cfg op) rest))

/-! ## 2. What the file says -/

/-- The file holds the cap-exceeded loss marker. -/
def Capped (recs : List MonitorRecord) : Prop := ∃ m ∈ recs, isCapMarker m = true

/-- **Where the accepted records are.**  `batch` is what the batch holds: a guarded record is in
the file, or the sentinel is armed over it, or one pending marker more than the armed one is
outstanding.  An armed sentinel over an empty batch has lost its batch. -/
structure Accounted (key : ThreadKey) (recs accepted batch : List MonitorRecord) (armed : Bool) :
    Prop where
  pending : armed = true → committedCount recs key < pendingCount recs key
  held : ∀ r ∈ accepted, sentinelGuards r = true →
    r ∈ recs ∨ (armed = true ∧ (r ∈ batch ∨ batch = [])) ∨
      committedCount recs key + armed.toNat < pendingCount recs key

section Account

variable {key : ThreadKey} {recs more accepted batch : List MonitorRecord} {armed : Bool}
  {r m : MonitorRecord}

theorem committedCount_append (recs more : List MonitorRecord) (key : ThreadKey) :
    committedCount (recs ++ more) key = committedCount recs key + committedCount more key :=
  List.countP_append

theorem pendingCount_append (recs more : List MonitorRecord) (key : ThreadKey) :
    pendingCount (recs ++ more) key = pendingCount recs key + pendingCount more key :=
  List.countP_append

theorem committedCount_plain (h : ∀ r ∈ recs, isCommittedMarker r = false) (key : ThreadKey) :
    committedCount recs key = 0 := by
  refine List.countP_eq_zero.mpr fun r hr => ?_
  rw [h r hr]
  simp

theorem Capped.append (h : Capped recs) (more : List MonitorRecord) : Capped (recs ++ more) := by
  obtain ⟨m, hm, hcap⟩ := h
  exact ⟨m, List.mem_append_left _ hm, hcap⟩

/-- Records that commit nothing may join the file. -/
theorem Accounted.grow (h : Accounted key recs accepted batch armed)
    (more : List MonitorRecord) (hmore : committedCount more key = 0) :
    Accounted key (recs ++ more) accepted batch armed := by
  have hcommitted := committedCount_append recs more key
  have hpending := pendingCount_append recs more key
  refine ⟨fun harmed => ?_, fun r hr hg => ?_⟩
  · have := h.pending harmed
    omega
  · rcases h.held r hr hg with hin | hheld | hout
    · exact .inl (List.mem_append_left _ hin)
    · exact .inr (.inl hheld)
    · exact .inr (.inr (by omega))

/-- The batch may go while the sentinel stays as it is. -/
theorem Accounted.drop (h : Accounted key recs accepted batch armed) :
    Accounted key recs accepted [] armed := by
  refine ⟨h.pending, fun r hr hg => ?_⟩
  rcases h.held r hr hg with hin | ⟨harmed, _⟩ | hout
  · exact .inl hin
  · exact .inr (.inl ⟨harmed, .inr rfl⟩)
  · exact .inr (.inr hout)

/-- **The commit**: the whole batch joins the file, and then at most the one committed marker the
armed sentinel owes. -/
theorem Accounted.commit (h : Accounted key recs accepted batch armed)
    (hplain : ∀ r ∈ batch, isCommittedMarker r = false) (hdirty : armed = true → batch ≠ [])
    (hmore : committedCount more key ≤ armed.toNat) :
    Accounted key (recs ++ (batch ++ more)) accepted [] false := by
  refine ⟨fun hf => absurd hf (by simp), fun r hr hg => ?_⟩
  rcases h.held r hr hg with hin | ⟨harmed, hbatch⟩ | hout
  · exact .inl (List.mem_append_left _ hin)
  · rcases hbatch with hbatch | hnil
    · exact .inl (List.mem_append_right _ (List.mem_append_left _ hbatch))
    · exact absurd hnil (hdirty harmed)
  · refine .inr (.inr ?_)
    rw [committedCount_append, committedCount_append, pendingCount_append, pendingCount_append,
      committedCount_plain hplain, Bool.toNat_false]
    omega

/-- With no pending marker outstanding and the sentinel clear everything is in the file, and stays
there whatever follows. -/
theorem Accounted.settled (h : Accounted key recs accepted batch false)
    (hnone : pendingCount recs key ≤ committedCount recs key) (more : List MonitorRecord) :
    Accounted key (recs ++ more) accepted [] false := by
  refine ⟨fun hf => absurd hf (by simp), fun r hr hg => ?_⟩
  rcases h.held r hr hg with hin | ⟨hf, _⟩ | hout
  · exact .inl (List.mem_append_left _ hin)
  · exact absurd hf (by simp)
  · exact absurd hout (by omega)

/-- A slot that is opened anew starts unarmed; a batch that was armed stays owed. -/
theorem Accounted.reopen (h : Accounted key recs accepted batch armed) :
    Accounted key recs accepted [] false := by
  refine ⟨fun hf => absurd hf (by simp), fun r hr hg => ?_⟩
  rcases h.held r hr hg with hin | ⟨harmed, _⟩ | hout
  · exact .inl hin
  · have := h.pending harmed
    exact .inr (.inr (by simpa using this))
  · exact .inr (.inr (by rw [Bool.toNat_false]; omega))

/-- A record joins a batch whose sentinel is armed, or needs none. -/
theorem Accounted.push (h : Accounted key recs accepted batch armed)
    (hdirty : armed = true → batch ≠ []) (hr : armed = true ∨ sentinelGuards r = false) :
    Accounted key recs (accepted ++ [r]) (batch ++ [r]) armed := by
  refine ⟨h.pending, fun r' hr' hg => ?_⟩
  rcases List.mem_append.mp hr' with hold | hnew
  · rcases h.held r' hold hg with hin | ⟨harmed, hbatch⟩ | hout
    · exact .inl hin
    · rcases hbatch with hbatch | hnil
      · exact .inr (.inl ⟨harmed, .inl (List.mem_append_left _ hbatch)⟩)
      · exact absurd hnil (hdirty harmed)
    · exact .inr (.inr hout)
  · rw [List.mem_singleton.mp hnew] at hg ⊢
    rcases hr with harmed | hplain
    · exact .inr (.inl ⟨harmed, .inl (List.mem_append_right _ (List.mem_singleton_self _))⟩)
    · rw [hg] at hplain
      exact absurd hplain (by simp)

/-- **The arming**: one more pending marker, and the record joins the batch. -/
theorem Accounted.arm (h : Accounted key recs accepted batch false)
    (hbalance : committedCount recs key ≤ pendingCount recs key)
    (hpend : pendingCount [m] key = 1) (hcommit : committedCount [m] key = 0) :
    Accounted key (recs ++ [m]) (accepted ++ [r]) (batch ++ [r]) true := by
  have hcommitted := committedCount_append recs [m] key
  have hpending := pendingCount_append recs [m] key
  refine ⟨fun _ => by omega, fun r' hr' hg => ?_⟩
  rcases List.mem_append.mp hr' with hold | hnew
  · rcases h.held r' hold hg with hin | ⟨hf, _⟩ | hout
    · exact .inl (List.mem_append_left _ hin)
    · exact absurd hf (by simp)
    · rw [Bool.toNat_false] at hout
      exact .inr (.inr (by rw [Bool.toNat_true]; omega))
  · rw [List.mem_singleton.mp hnew]
    exact .inr (.inl ⟨rfl, .inl (List.mem_append_right _ (List.mem_singleton_self _))⟩)

/-- A record that went to the file itself. -/
theorem Accounted.durable (h : Accounted key recs accepted batch armed)
    (hr : isCommittedMarker r = false) :
    Accounted key (recs ++ [r]) (accepted ++ [r]) batch armed := by
  have hgrown := h.grow [r] (committedCount_plain (by simpa using hr) key)
  refine ⟨hgrown.pending, fun r' hr' hg => ?_⟩
  rcases List.mem_append.mp hr' with hold | hnew
  · exact hgrown.held r' hold hg
  · exact .inl (List.mem_append_right _ hnew)

end Account

/-! ## 3. Bytes and records -/

theorem fitsWire_slotMarker (cfg : SlotConfig) {detail : NimStr} (ctx : ShortText)
    (h : detail.length < 100) : FitsWire (slotMarker cfg detail ctx) := by
  have htoken := cfg.runToken.2
  have hctx := ctx.2
  simp only [FitsWire, slotMarker, List.length_append, RecordFixedHeaderLen, List.length_nil]
  omega

theorem decode_encodeFrame {r : MonitorRecord} (h : FitsWire r) :
    decodeFramesTolerant (encodeFrame r) = ([r], true) := by
  have hread : decodeFramesTolerant (stream encodeRecordPayload [r] ++ []) = ([r] ++ [], true) :=
    decodeFramesTolerant_stream (by simpa using h) []
  rwa [stream_cons, stream_nil, List.append_nil, List.append_nil, ← encodeFrame] at hread

/-- A clean file is read before what is added to it. -/
theorem decode_clean_append {file : List UInt8} (h : (decodeFramesTolerant file).2 = true)
    (more : List UInt8) :
    decodeFramesTolerant (file ++ more) =
      ((decodeFramesTolerant file).1 ++ (decodeFramesTolerant more).1,
        (decodeFramesTolerant more).2) :=
  scan_append_of_clean file more h

theorem marker_detail {detail token ctx : NimStr} (needle : NimStr) :
    startsWith (detail ++ token ++ ctx) needle = needle.isPrefixOf (detail ++ (token ++ ctx)) := by
  rw [startsWith, List.append_assoc]

section Markers

variable (cfg : SlotConfig) (ctx : ShortText)

theorem slotMarker_self (detail : NimStr) :
    startsWith (slotMarker cfg detail ctx).detail detail = true := by
  rw [startsWith, List.isPrefixOf_iff_prefix, slotMarker, List.append_assoc]
  exact List.prefix_append ..

@[simp] theorem slotMarker_kind (detail : NimStr) :
    (slotMarker cfg detail ctx).kind = mrEventLoss := rfl

@[simp] theorem threadKey_slotMarker (detail : NimStr) :
    threadKey (slotMarker cfg detail ctx) = cfg.key := rfl

theorem pendingMarker_counts :
    pendingCount [slotMarker cfg ReadTailPendingDetail ctx] cfg.key = 1 ∧
      committedCount [slotMarker cfg ReadTailPendingDetail ctx] cfg.key = 0 := by
  have hself := slotMarker_self cfg ctx ReadTailPendingDetail
  have hother : startsWith (slotMarker cfg ReadTailPendingDetail ctx).detail
      ReadTailCommittedDetail = false := by
    rw [slotMarker, marker_detail]
    rfl
  constructor
  · simp [pendingCount, isPendingMarker, hself]
  · simp [committedCount, isCommittedMarker, hother]

theorem committedMarker_count :
    committedCount [slotMarker cfg ReadTailCommittedDetail ctx] cfg.key = 1 := by
  have hself := slotMarker_self cfg ctx ReadTailCommittedDetail
  simp [committedCount, isCommittedMarker, hself]

theorem capMarker_counts :
    isCapMarker (slotMarker cfg FragmentCapReachedDetail ctx) = true ∧
      committedCount [slotMarker cfg FragmentCapReachedDetail ctx] cfg.key = 0 := by
  have hself := slotMarker_self cfg ctx FragmentCapReachedDetail
  have hother : startsWith (slotMarker cfg FragmentCapReachedDetail ctx).detail
      ReadTailCommittedDetail = false := by
    rw [slotMarker, marker_detail]
    rfl
  constructor
  · rw [isCapMarker, hself]
    rfl
  · simp [committedCount, isCommittedMarker, hother]

end Markers

/-! ## 4. The invariant -/

/-- **The invariant of a safe run.**  `batch` is the list of records the batch holds. -/
structure SlotInv (cfg : SlotConfig) (s : FragmentSlot) (batch : List MonitorRecord) : Prop where
  bytes : s.batch = stream encodeRecordPayload batch
  plain : ∀ r ∈ batch, FitsWire r ∧ isCommittedMarker r = false
  frame : s.committedFrame = [] ∨
    s.committedFrame = encodeFrame (slotMarker cfg ReadTailCommittedDetail noContext)
  capped : s.overCap = true → s.clean = true → Capped s.records
  accounted : s.clean = true → Capped s.records ∨
    Accounted cfg.key s.records s.accepted batch s.readingSentinelActive

section Invariant

variable {cfg : SlotConfig} {s s' : FragmentSlot} {batch : List MonitorRecord}

theorem slotInv_start (cfg : SlotConfig) : SlotInv cfg {} [] :=
  ⟨rfl, by simp, .inl rfl, fun h => absurd h (by simp),
    fun _ => .inr ⟨fun h => absurd h (by simp), by simp⟩⟩

/-- An honest kill is what the invariant is for. -/
theorem SlotInv.killHonest (h : SlotInv cfg s batch) : KillHonest cfg s := by
  intro r hr hdep hsuppress
  by_cases hclean : s.clean = true
  · rcases h.accounted hclean with hcap | hacc
    · exact .inr (.inr (.inr hcap))
    · have hg : sentinelGuards r = true := by simp [sentinelGuards, hdep, hsuppress]
      rcases hacc.held r hr hg with hin | ⟨harmed, _⟩ | hout
      · exact .inl hin
      · exact .inr (.inl (hacc.pending harmed))
      · exact .inr (.inl (by omega))
  · exact .inr (.inr (.inl (by simpa using hclean)))

/-- The records of a file that grew. -/
theorem grown_file (s' : FragmentSlot) {more : List UInt8} (hclean : s.clean = true)
    (hfile : s'.file = s.file ++ more) :
    s'.records = s.records ++ (decodeFramesTolerant more).1 ∧
      s'.clean = (decodeFramesTolerant more).2 := by
  have happ := decode_clean_append hclean more
  rw [FragmentSlot.records, FragmentSlot.clean, hfile, happ]
  exact ⟨rfl, rfl⟩

/-- Part of some frames reaches the file and nothing else happens. -/
theorem SlotInv.torn (h : SlotInv cfg s batch) (hclean : s.clean = true)
    (frames : List MonitorRecord)
    (hframes : ∀ r ∈ frames, FitsWire r ∧ isCommittedMarker r = false) (n : Nat) :
    SlotInv cfg { s with file := s.file ++ (stream encodeRecordPayload frames).take n } batch := by
  obtain ⟨k, hk, _⟩ := scan_torn frames (fun r hr => framable (hframes r hr).1) n
  obtain ⟨hrecs, _⟩ := grown_file
    { s with file := s.file ++ (stream encodeRecordPayload frames).take n } hclean rfl
  rw [decodeFramesTolerant, hk] at hrecs
  have hplain : committedCount (frames.take k) cfg.key = 0 :=
    committedCount_plain (fun r hr => (hframes r (List.mem_of_mem_take hr)).2) _
  refine ⟨h.bytes, h.plain, h.frame, fun hcap _ => ?_, fun _ => ?_⟩
  · rw [hrecs]
    exact (h.capped hcap hclean).append _
  · rw [hrecs]
    exact (h.accounted hclean).imp (fun hcap => hcap.append _) fun hacc => hacc.grow _ hplain

theorem SlotInv.written (h : SlotInv cfg s batch) (hclean : s.clean = true) (n : Nat) :
    SlotInv cfg { s with file := s.file ++ s.batch.take n } batch := by
  have htorn := h.torn hclean _ h.plain n
  rwa [← h.bytes] at htorn

/-- The batch is dropped. -/
theorem SlotInv.dropped (h : SlotInv cfg s batch) : SlotInv cfg { s with batch := [] } [] :=
  ⟨rfl, by simp, h.frame, h.capped, fun hclean => (h.accounted hclean).imp (fun hc => hc)
    fun hacc => hacc.drop⟩

/-- The handle is given up. -/
theorem SlotInv.closed (h : SlotInv cfg s batch) : SlotInv cfg { s with isOpen := false } batch :=
  ⟨h.bytes, h.plain, h.frame, h.capped, h.accounted⟩

/-- **The commit.**  The whole batch reaches the file, behind it the marker if the sentinel owes
one, and the sentinel is clear. -/
theorem SlotInv.committed (h : SlotInv cfg s batch) (s' : FragmentSlot) (bytes : List UInt8)
    {markers : List MonitorRecord} (hclean : s.clean = true)
    (hdirty : s.readingSentinelActive = true → s.batch ≠ [])
    (hbytes : decodeFramesTolerant bytes = (markers, true))
    (hmarkers : committedCount markers cfg.key ≤ s.readingSentinelActive.toNat)
    (hfile : s'.file = s.file ++ (s.batch ++ bytes)) (hbatch : s'.batch = [])
    (hsentinel : s'.readingSentinelActive = false)
    (hframe : s'.committedFrame = [] ∨ s'.committedFrame = s.committedFrame)
    (hcap : s'.overCap = s.overCap) (haccepted : s'.accepted = s.accepted) :
    SlotInv cfg s' [] ∧ s'.clean = true ∧ s'.records = s.records ++ (batch ++ markers) := by
  have hread : decodeFramesTolerant (s.batch ++ bytes) = (batch ++ markers, true) := by
    rw [h.bytes, decodeFramesTolerant_stream (fun r hr => (h.plain r hr).1), hbytes]
  obtain ⟨hrecs, hclean'⟩ := grown_file s' hclean hfile
  rw [hread] at hrecs hclean'
  have hne : s.readingSentinelActive = true → batch ≠ [] := by
    intro harmed hnil
    exact hdirty harmed (by rw [h.bytes, hnil, stream_nil])
  refine ⟨⟨hbatch, by simp, ?_, fun hover _ => ?_, fun _ => ?_⟩, hclean', hrecs⟩
  · rcases hframe with hframe | hframe
    · exact .inl hframe
    · rw [hframe]
      exact h.frame
  · rw [hrecs]
    exact (h.capped (hcap ▸ hover) hclean).append _
  · rw [hrecs, haccepted, hsentinel]
    exact (h.accounted hclean).imp (fun hcap => hcap.append _)
      fun hacc => hacc.commit (fun r hr => (h.plain r hr).2) hne hmarkers

/-! ## 5. The operations -/

/-- What a flush can do. -/
theorem flushFragmentBatch_cases (cfg : SlotConfig) (io : SlotIo) (s : FragmentSlot) :
    ((s.isOpen = false ∨ s.batch = []) ∧ flushFragmentBatch cfg io s = (s, none)) ∨
    (io.handleOk = false ∧
      flushFragmentBatch cfg io s = ({ s with isOpen := false }, some handleLost)) ∨
    (io.write.whole s.batch.length = false ∧
      (∃ e, flushFragmentBatch cfg io s =
        ({ s with file := s.file ++ s.batch.take io.write.reached }, some e))) ∨
    (io.write.whole s.batch.length = false ∧
      (∃ e, flushFragmentBatch cfg io s =
        ({ s with file := s.file ++ s.batch.take io.write.reached, batch := [] }, some e))) ∨
    (s.isOpen = true ∧ io.write.whole s.batch.length = true ∧
      flushFragmentBatch cfg io s =
        (accountFragmentBytes cfg s.batch.length io.ctx
          (clearReadingSentinel cfg io.ctx { s with file := s.file ++ s.batch, batch := [] }),
          none)) := by
  unfold flushFragmentBatch
  split
  · rename_i hidle
    refine .inl ⟨?_, rfl⟩
    simpa [List.isEmpty_iff] using hidle
  rename_i hidle
  have hopen : s.isOpen = true := by
    rw [Bool.or_eq_true, not_or] at hidle
    simpa using hidle.1
  split
  · rename_i hhandle
    exact .inr (.inl ⟨by simpa using hhandle, rfl⟩)
  simp only
  split
  · rename_i hraised
    exact .inr (.inr (.inl ⟨by simp [WriteOutcome.whole, hraised], _, rfl⟩))
  rename_i hraised
  split
  · rename_i hshort
    exact .inr (.inr (.inr (.inl ⟨by simp [WriteOutcome.whole, hshort], _, rfl⟩)))
  · rename_i hshort
    have hle : s.batch.length ≤ io.write.reached := Nat.not_lt.mp hshort
    refine .inr (.inr (.inr (.inr ⟨hopen, ?_, ?_⟩)))
    · simp [WriteOutcome.whole, hraised, hle]
    · rw [List.take_of_length_le hle]

/-- What the accounting can do when the sentinel is clear. -/
theorem accountFragmentBytes_cases (cfg : SlotConfig) (written : Nat) (ctx : ShortText)
    {s : FragmentSlot} (hclear : s.readingSentinelActive = false) :
    (∃ bytes, accountFragmentBytes cfg written ctx s = { s with fragmentBytes := bytes }) ∨
    (∃ bytes, accountFragmentBytes cfg written ctx s =
      { s with
        fragmentBytes := bytes
        file := s.file ++ encodeFrame (slotMarker cfg FragmentCapReachedDetail ctx)
        overCap := true
        isOpen := false
        batch := [] }) := by
  unfold accountFragmentBytes
  split
  · exact .inl ⟨s.fragmentBytes, rfl⟩
  rename_i hidle
  have hopen : s.isOpen = true := by
    rw [Bool.or_eq_true, not_or] at hidle
    simpa using hidle.2
  simp only
  split
  · exact .inl ⟨_, rfl⟩
  · refine .inr ⟨s.fragmentBytes + written, ?_⟩
    simp only [writeReadTailMarker, hopen, if_true, clearReadingSentinel, hclear, Bool.not_false]

/-- No committed marker is ahead of its pending one, unless the fragment is capped anyway. -/
def Balanced (cfg : SlotConfig) (s : FragmentSlot) : Prop :=
  Capped s.records ∨ committedCount s.records cfg.key ≤ pendingCount s.records cfg.key

/-- **A record can be accepted here.** -/
structure SlotReady (cfg : SlotConfig) (s : FragmentSlot) (batch : List MonitorRecord) : Prop where
  inv : SlotInv cfg s batch
  clean : s.clean = true
  dirty : s.readingSentinelActive = true → s.batch ≠ []
  balanced : Balanced cfg s
  writable : s.isOpen = true ∨ Capped s.records

/-- The batch is in the file and the sentinel is retired. -/
theorem SlotReady.retired (h : SlotReady cfg s batch) (hopen : s.isOpen = true) (ctx : ShortText) :
    SlotReady cfg (clearReadingSentinel cfg ctx { s with file := s.file ++ s.batch, batch := [] })
      [] ∧
    (clearReadingSentinel cfg ctx
      { s with file := s.file ++ s.batch, batch := [] }).readingSentinelActive = false := by
  have hplain := committedCount_plain (fun r hr => (h.inv.plain r hr).2) cfg.key
  by_cases harmed : s.readingSentinelActive = true
  · have hsent : clearReadingSentinel cfg ctx { s with file := s.file ++ s.batch, batch := [] } =
        { s with
          file := s.file ++ s.batch ++ encodeFrame (slotMarker cfg ReadTailCommittedDetail ctx)
          batch := []
          readingSentinelActive := false } := by
      simp only [clearReadingSentinel, harmed, Bool.not_true, Bool.false_eq_true, if_false,
        writeReadTailMarker, hopen, if_true]
    rw [hsent]
    have hmarker := committedMarker_count cfg ctx
    obtain ⟨hinv, hclean, hrecs⟩ := h.inv.committed
      { s with
        file := s.file ++ s.batch ++ encodeFrame (slotMarker cfg ReadTailCommittedDetail ctx)
        batch := []
        readingSentinelActive := false }
      (encodeFrame (slotMarker cfg ReadTailCommittedDetail ctx)) h.clean h.dirty
      (decode_encodeFrame (fitsWire_slotMarker cfg ctx (by decide)))
      (by rw [hmarker, harmed]; exact Nat.le_refl _) (List.append_assoc ..) rfl rfl (.inr rfl) rfl
      rfl
    refine ⟨⟨hinv, hclean, fun ht => absurd ht (by simp), ?_, .inl hopen⟩, rfl⟩
    rw [Balanced, hrecs]
    -- the armed sentinel's own pending marker pays for the committed one
    rcases h.inv.accounted h.clean with hcap | hacc
    · exact .inl (hcap.append _)
    · have hlt := hacc.pending harmed
      refine .inr ?_
      rw [committedCount_append, committedCount_append, pendingCount_append, hplain, hmarker]
      omega
  · rw [Bool.not_eq_true] at harmed
    have hsame : clearReadingSentinel cfg ctx { s with file := s.file ++ s.batch, batch := [] } =
        { s with file := s.file ++ s.batch, batch := [] } := by
      simp only [clearReadingSentinel, harmed, Bool.not_false, if_true]
    rw [hsame]
    obtain ⟨hinv, hclean, hrecs⟩ := h.inv.committed
      { s with file := s.file ++ s.batch, batch := [] } [] h.clean h.dirty rfl
      (Nat.zero_le _) (by simp) rfl harmed (.inr rfl) rfl rfl
    refine ⟨⟨hinv, hclean, fun ht => ?_, ?_, .inl hopen⟩, harmed⟩
    · rw [harmed] at ht
      exact absurd ht (by simp)
    · rw [Balanced, hrecs, List.append_nil]
      refine h.balanced.imp (fun hcap => hcap.append _) fun hle => ?_
      rw [committedCount_append, pendingCount_append, hplain]
      omega

/-- The accounting leaves a slot that is ready, if only because it is capped. -/
theorem SlotReady.accountBytes (h : SlotReady cfg s []) (hclear : s.readingSentinelActive = false)
    (written : Nat) (ctx : ShortText) :
    SlotReady cfg (accountFragmentBytes cfg written ctx s) [] ∧
      (accountFragmentBytes cfg written ctx s).readingSentinelActive = false := by
  rcases accountFragmentBytes_cases cfg written ctx hclear with ⟨bytes, heq⟩ | ⟨bytes, heq⟩
  · rw [heq]
    exact ⟨⟨⟨h.inv.bytes, h.inv.plain, h.inv.frame, h.inv.capped, h.inv.accounted⟩, h.clean,
      h.dirty, h.balanced, h.writable⟩, hclear⟩
  · rw [heq]
    obtain ⟨hrecs, hclean⟩ := grown_file { s with
      fragmentBytes := bytes
      file := s.file ++ encodeFrame (slotMarker cfg FragmentCapReachedDetail ctx)
      overCap := true
      isOpen := false
      batch := [] } h.clean rfl
    rw [decode_encodeFrame (fitsWire_slotMarker cfg ctx (by decide))] at hrecs hclean
    have hcap : Capped (s.records ++ [slotMarker cfg FragmentCapReachedDetail ctx]) :=
      ⟨_, List.mem_append_right _ (List.mem_singleton_self _), (capMarker_counts cfg ctx).1⟩
    rw [← hrecs] at hcap
    exact ⟨⟨⟨rfl, h.inv.plain, h.inv.frame, fun _ _ => hcap, fun _ => .inl hcap⟩, hclean,
      fun ht => absurd (hclear ▸ ht) (by simp), .inl hcap, .inr hcap⟩, hclear⟩

/-- **A flush keeps the invariant**, and one that returns leaves an empty batch under a clear
sentinel. -/
theorem SlotReady.flush (h : SlotReady cfg s batch) (hopen : s.isOpen = true) (io : SlotIo) :
    (∃ batch', SlotInv cfg (flushFragmentBatch cfg io s).1 batch') ∧
      ((flushFragmentBatch cfg io s).2 = none →
        SlotReady cfg (flushFragmentBatch cfg io s).1 [] ∧
          (flushFragmentBatch cfg io s).1.readingSentinelActive = false) := by
  rcases flushFragmentBatch_cases cfg io s with ⟨hidle, heq⟩ | ⟨_, heq⟩ | ⟨_, e, heq⟩ |
    ⟨_, e, heq⟩ | ⟨_, _, heq⟩ <;> rw [heq]
  · refine ⟨⟨batch, h.inv⟩, fun _ => ?_⟩
    have hnil : s.batch = [] := by
      rcases hidle with hclosed | hnil
      · rw [hopen] at hclosed
        exact absurd hclosed (by simp)
      · exact hnil
    have hsame : { s with batch := [] } = s := by rw [← hnil]
    have hinv := h.inv.dropped
    rw [hsame] at hinv
    refine ⟨⟨hinv, h.clean, h.dirty, h.balanced, h.writable⟩, ?_⟩
    rw [← Bool.not_eq_true]
    exact fun harmed => h.dirty harmed hnil
  · exact ⟨⟨batch, h.inv.closed⟩, fun hnone => absurd hnone (by simp)⟩
  · exact ⟨⟨batch, h.inv.written h.clean _⟩, fun hnone => absurd hnone (by simp)⟩
  · exact ⟨⟨[], (h.inv.written h.clean _).dropped⟩, fun hnone => absurd hnone (by simp)⟩
  · obtain ⟨hready, hclear⟩ := h.retired hopen io.ctx
    obtain ⟨hready, hclear⟩ := hready.accountBytes hclear s.batch.length io.ctx
    exact ⟨⟨[], hready.inv⟩, fun _ => ⟨hready, hclear⟩⟩

/-- A flush that gets an armed batch through leaves the sentinel clear. -/
theorem flush_unarmed (h : SlotReady cfg s batch) (hopen : s.isOpen = true) {io : SlotIo}
    (hwhole : s.readingSentinelActive = true → io.write.whole s.batch.length = true)
    (hhandle : io.handleOk = true) :
    (flushFragmentBatch cfg io s).1.readingSentinelActive = false := by
  have hnot : io.write.whole s.batch.length = false → s.readingSentinelActive = false := by
    intro hshort
    rw [← Bool.not_eq_true]
    intro harmed
    rw [hwhole harmed] at hshort
    exact absurd hshort (by simp)
  rcases flushFragmentBatch_cases cfg io s with ⟨_, heq⟩ | ⟨hlost, _⟩ | ⟨hshort, e, heq⟩ |
    ⟨hshort, e, heq⟩ | ⟨_, _, heq⟩
  · exact ((h.flush hopen io).2 (by rw [heq])).2
  · rw [hhandle] at hlost
    exact absurd hlost (by simp)
  · rw [heq]
    exact hnot hshort
  · rw [heq]
    exact hnot hshort
  · exact ((h.flush hopen io).2 (by rw [heq])).2

/-- **A close keeps the invariant** when its flush gets an armed batch through. -/
theorem SlotReady.close (h : SlotReady cfg s batch) (retainIdentity : Bool) (io : SlotIo)
    (hwhole : s.isOpen = true → io.handleOk = true → s.readingSentinelActive = true →
      io.write.whole s.batch.length = true) :
    ∃ batch', SlotInv cfg (closeFragmentSlot cfg retainIdentity io s) batch' := by
  unfold closeFragmentSlot
  split
  · exact ⟨batch, h.inv⟩
  rename_i hopen
  rw [Bool.not_eq_true, Bool.not_eq_false'] at hopen
  split
  · exact ⟨batch, h.inv.closed⟩
  rename_i hhandle
  rw [Bool.not_eq_true, Bool.not_eq_false'] at hhandle
  obtain ⟨⟨batch', hinv⟩, _⟩ := h.flush hopen io
  have hclear := flush_unarmed h hopen (hwhole hopen hhandle) hhandle
  have hsame : clearReadingSentinel cfg io.ctx (flushFragmentBatch cfg io s).1 =
      (flushFragmentBatch cfg io s).1 := by
    simp only [clearReadingSentinel, hclear, Bool.not_false, if_true]
  rw [hsame]
  refine ⟨[], ⟨rfl, by simp, hinv.frame, fun hcap => hinv.capped ?_, fun hclean => ?_⟩⟩
  · simp only [Bool.and_eq_true] at hcap
    exact hcap.2
  · refine (hinv.accounted hclean).imp (fun hcap => hcap) fun hacc => ?_
    rw [hclear] at hacc
    exact hacc.drop

/-- **A sweep keeps the invariant.** -/
theorem SlotReady.sweep (h : SlotReady cfg s batch) (w : WriteOutcome) :
    ∃ batch', SlotInv cfg (sweepSlot w s) batch' := by
  unfold sweepSlot
  split
  · exact ⟨batch, h.inv⟩
  simp only
  split
  · rename_i hcommit
    rw [Bool.and_eq_true, Bool.and_eq_true] at hcommit
    obtain ⟨⟨hwhole, harmed⟩, hframe⟩ := hcommit
    have hle : s.batch.length ≤ w.reached := by
      simp only [WriteOutcome.whole, Bool.and_eq_true, decide_eq_true_eq] at hwhole
      exact hwhole.2
    rw [List.take_of_length_le hle]
    have hframe : s.committedFrame =
        encodeFrame (slotMarker cfg ReadTailCommittedDetail noContext) := by
      refine h.inv.frame.resolve_left fun hnil => ?_
      rw [hnil] at hframe
      exact absurd hframe (by simp)
    obtain ⟨hinv, _⟩ := h.inv.committed
      { s with
        file := s.file ++ s.batch ++ s.committedFrame
        batch := []
        readingSentinelActive := false } s.committedFrame h.clean h.dirty
      (by rw [hframe]; exact decode_encodeFrame (fitsWire_slotMarker cfg noContext (by decide)))
      (by rw [committedMarker_count, harmed]; exact Nat.le_refl _) (List.append_assoc ..) rfl rfl
      (.inr rfl) rfl rfl
    exact ⟨[], hinv⟩
  · exact ⟨[], (h.inv.written h.clean _).dropped⟩

/-- The committed frame reads as one committed marker at most. -/
theorem SlotInv.frame_reads (h : SlotInv cfg s batch) :
    ∃ markers, decodeFramesTolerant s.committedFrame = (markers, true) ∧
      committedCount markers cfg.key ≤ 1 := by
  rcases h.frame with hnil | hframe
  · exact ⟨[], by rw [hnil]; rfl, Nat.zero_le _⟩
  · refine ⟨[slotMarker cfg ReadTailCommittedDetail noContext], ?_, ?_⟩
    · rw [hframe, decode_encodeFrame (fitsWire_slotMarker cfg noContext (by decide))]
    · rw [committedMarker_count]

/-- **The signal-safe flush keeps the invariant** when it gets an armed batch through, and when
nothing is outstanding otherwise. -/
theorem SlotReady.sigSafe (h : SlotReady cfg s batch) (identityMatches : Bool) (w : WriteOutcome)
    (hsafe : identityMatches = true →
      (s.readingSentinelActive = true → s.batch.length ≤ w.reached) ∧
      (s.readingSentinelActive = false →
        pendingCount s.records cfg.key ≤ committedCount s.records cfg.key)) :
    ∃ batch', SlotInv cfg (sigSafeFlush identityMatches w s) batch' := by
  unfold sigSafeFlush
  split
  · exact ⟨batch, h.inv⟩
  split
  · refine ⟨[], ⟨rfl, by simp, .inl rfl, h.inv.capped, fun hclean => ?_⟩⟩
    exact (h.inv.accounted hclean).imp (fun hcap => hcap) fun hacc => hacc.reopen
  rename_i hidentity
  rw [Bool.not_eq_true, Bool.not_eq_false'] at hidentity
  obtain ⟨hthrough, hnone⟩ := hsafe hidentity
  by_cases harmed : s.readingSentinelActive = true
  · obtain ⟨markers, hbytes, hmarkers⟩ := h.inv.frame_reads
    rw [List.take_of_length_le (hthrough harmed)]
    obtain ⟨hinv, _⟩ := h.inv.committed
      (sigSafeMarkSlotClosed { s with file := s.file ++ s.batch ++ s.committedFrame })
      s.committedFrame h.clean h.dirty hbytes (by rw [harmed]; exact hmarkers)
        (List.append_assoc ..) rfl rfl
      (.inl rfl) rfl rfl
    exact ⟨[], hinv⟩
  · rw [Bool.not_eq_true] at harmed
    obtain ⟨hrecs, _⟩ := grown_file
      (sigSafeMarkSlotClosed
        { s with file := s.file ++ s.batch.take w.reached ++ s.committedFrame })
      h.clean (List.append_assoc ..)
    refine ⟨[], ⟨rfl, by simp, .inl rfl, fun hcap _ => ?_, fun _ => ?_⟩⟩
    · rw [hrecs]
      exact (h.inv.capped hcap h.clean).append _
    · rw [hrecs]
      refine (h.inv.accounted h.clean).imp (fun hcap => hcap.append _) fun hacc => ?_
      rw [harmed] at hacc
      exact hacc.settled (hnone harmed) _

/-- **A record joins the batch.** -/
theorem SlotReady.pushFrame {r : MonitorRecord} (h : SlotReady cfg s batch) (hfits : FitsWire r)
    (hr : isCommittedMarker r = false) (ctx : ShortText) :
    SlotInv cfg (pushFrame cfg r ctx s) (batch ++ [r]) := by
  have hbytes : s.batch ++ encodeFrame r = stream encodeRecordPayload (batch ++ [r]) := by
    rw [h.inv.bytes, stream_append, stream_cons, stream_nil, List.append_nil, encodeFrame]
  have hplain : ∀ r' ∈ batch ++ [r], FitsWire r' ∧ isCommittedMarker r' = false := by
    intro r' hr'
    rcases List.mem_append.mp hr' with hold | hnew
    · exact h.inv.plain r' hold
    · rw [List.mem_singleton.mp hnew]
      exact ⟨hfits, hr⟩
  have hdirty : s.readingSentinelActive = true → batch ≠ [] := by
    intro harmed hnil
    exact h.dirty harmed (by rw [h.inv.bytes, hnil, stream_nil])
  -- nothing is written, because the sentinel is armed already or has nothing to guard
  have hquiet : s.readingSentinelActive = true ∨ sentinelGuards r = false ∨ Capped s.records →
      SlotInv cfg { s with batch := s.batch ++ encodeFrame r, accepted := s.accepted ++ [r] }
        (batch ++ [r]) := by
    intro hwhy
    refine ⟨hbytes, hplain, h.inv.frame, h.inv.capped, fun hclean => ?_⟩
    rcases h.inv.accounted hclean with hcap | hacc
    · exact .inl hcap
    · rcases hwhy with harmed | hguard | hcap
      · exact .inr (hacc.push hdirty (.inl harmed))
      · exact .inr (hacc.push hdirty (.inr hguard))
      · exact .inl hcap
  unfold IoMon.pushFrame markReadingSentinel
  split
  · rename_i hkind
    rw [Bool.not_eq_true'] at hkind
    exact hquiet (.inr (.inl (by rw [sentinelGuards, hkind, Bool.false_and])))
  split
  · rename_i hsuppress
    exact hquiet (.inr (.inl (by simp [sentinelGuards, hsuppress])))
  split
  · rename_i hskip
    rw [Bool.or_eq_true] at hskip
    rcases hskip with harmed | hclosed
    · exact hquiet (.inl harmed)
    · refine hquiet (.inr (.inr (h.writable.resolve_left ?_)))
      simpa using hclosed
  rename_i hskip
  rw [Bool.or_eq_true, not_or] at hskip
  have harmed : s.readingSentinelActive = false := by simpa using hskip.1
  have hopen : s.isOpen = true := by simpa using hskip.2
  simp only [writeReadTailMarker, hopen, if_true]
  obtain ⟨hrecs, _⟩ := grown_file { s with
    batch := s.batch ++ encodeFrame r
    accepted := s.accepted ++ [r]
    file := s.file ++ encodeFrame (slotMarker cfg ReadTailPendingDetail ctx)
    readingSentinelActive := true } h.clean rfl
  rw [decode_encodeFrame (fitsWire_slotMarker cfg ctx (by decide))] at hrecs
  obtain ⟨hpend, hcommit⟩ := pendingMarker_counts cfg ctx
  rw [hopen] at hrecs
  refine ⟨hbytes, hplain, h.inv.frame, fun hcap _ => ?_, fun _ => ?_⟩
  · rw [hrecs]
    exact (h.inv.capped hcap h.clean).append _
  · rw [hrecs]
    rcases h.inv.accounted h.clean with hcap | hacc
    · exact .inl (hcap.append _)
    · rcases h.balanced with hcap | hle
      · exact .inl (hcap.append _)
      · rw [harmed] at hacc
        exact .inr (hacc.arm hle hpend hcommit)

/-- **A giant frame keeps the invariant.** -/
theorem SlotReady.giantFrame {r : MonitorRecord} (h : SlotReady cfg s [])
    (hclear : s.readingSentinelActive = false) (hfits : FitsWire r)
    (hr : isCommittedMarker r = false) (io : SlotIo) :
    ∃ batch', SlotInv cfg (writeGiantFrame cfg io r s).1 batch' := by
  have hframe : stream encodeRecordPayload [r] = encodeFrame r := by
    rw [stream_cons, stream_nil, List.append_nil, encodeFrame]
  have htorn := h.inv.torn h.clean [r] (by simpa using ⟨hfits, hr⟩) io.direct.reached
  rw [hframe] at htorn
  unfold writeGiantFrame
  split
  · exact ⟨[], h.inv⟩
  simp only
  split
  · exact ⟨[], htorn⟩
  split
  · exact ⟨[], htorn⟩
  rename_i hwhole
  rw [List.take_of_length_le (Nat.not_lt.mp hwhole)]
  obtain ⟨hrecs, hclean⟩ := grown_file { s with
    file := s.file ++ encodeFrame r
    accepted := s.accepted ++ [r] } h.clean rfl
  rw [decode_encodeFrame hfits] at hrecs hclean
  have hready : SlotReady cfg { s with
      file := s.file ++ encodeFrame r
      accepted := s.accepted ++ [r] } [] := by
    have hcount : committedCount [r] cfg.key = 0 := committedCount_plain (by simpa using hr) _
    refine ⟨⟨h.inv.bytes, h.inv.plain, h.inv.frame, fun hcap _ => ?_, fun _ => ?_⟩, hclean,
      h.dirty, ?_, ?_⟩
    · rw [hrecs]
      exact (h.inv.capped hcap h.clean).append _
    · rw [hrecs]
      exact (h.inv.accounted h.clean).imp (fun hcap => hcap.append _) fun hacc => hacc.durable hr
    · rw [Balanced, hrecs]
      refine h.balanced.imp (fun hcap => hcap.append _) fun hle => ?_
      rw [committedCount_append, pendingCount_append, hcount]
      omega
    · rw [hrecs]
      exact h.writable.imp (fun hopen => hopen) fun hcap => hcap.append _
  exact ⟨[], (hready.accountBytes hclear _ io.ctx).1.inv⟩

/-- The append behind the open file. -/
theorem SlotReady.appendToOpen {r : MonitorRecord} (h : SlotReady cfg s batch)
    (hopen : s.isOpen = true) (hfits : FitsWire r) (hr : isCommittedMarker r = false)
    (io : SlotIo) : ∃ batch', SlotInv cfg (appendToOpen cfg io r s).1 batch' := by
  obtain ⟨hinv, hready⟩ := h.flush hopen { io with handleOk := true }
  unfold IoMon.appendToOpen
  simp only
  split
  · cases hflush : flushFragmentBatch cfg { io with handleOk := true } s with
    | mk s₁ raised =>
      rw [hflush] at hinv hready
      cases raised with
      | some e => exact hinv
      | none =>
        obtain ⟨hready, hclear⟩ := hready rfl
        exact hready.giantFrame hclear hfits hr io
  split
  · cases hflush : flushFragmentBatch cfg { io with handleOk := true } s with
    | mk s₁ raised =>
      rw [hflush] at hinv hready
      cases raised with
      | some e => exact hinv
      | none => exact ⟨_, (hready rfl).1.pushFrame hfits hr io.ctx⟩
  · exact ⟨_, h.pushFrame hfits hr io.ctx⟩

/-- Opening the fragment makes the slot ready. -/
theorem SlotInv.opened (h : SlotInv cfg s batch) (hclean : s.clean = true)
    (hbalanced : Balanced cfg s) : SlotReady cfg (openFragmentSlot cfg s) [] := by
  refine ⟨⟨rfl, by simp, ?_, fun hcap => h.capped ?_, fun hc => ?_⟩, hclean,
    fun harmed => absurd harmed (by simp [openFragmentSlot]), hbalanced, .inl rfl⟩
  · simp only [openFragmentSlot, sigSafeCommittedFrame]
    split
    · exact .inl rfl
    · exact .inr rfl
  · simp only [openFragmentSlot, Bool.and_eq_true] at hcap
    exact hcap.2
  · exact (h.accounted hc).imp (fun hcap => hcap) fun hacc => hacc.reopen

/-- **An append keeps the invariant.** -/
theorem SlotInv.append {r : MonitorRecord} (h : SlotInv cfg s batch) (hclean : s.clean = true)
    (hdirty : s.readingSentinelActive = true → s.batch ≠ []) (hbalanced : Balanced cfg s)
    (hfits : FitsWire r) (hr : isCommittedMarker r = false) (io : SlotIo) :
    ∃ batch', SlotInv cfg (appendFragmentRecord cfg io r s).1 batch' := by
  simp only [appendFragmentRecord]
  split
  · -- dropped, because the file holds the cap marker
    rename_i hover
    rw [Bool.and_eq_true] at hover
    have hcap := h.capped hover.1 hclean
    exact ⟨batch, ⟨h.bytes, h.plain, h.frame, h.capped, fun _ => .inl hcap⟩⟩
  split
  · rename_i hopen
    split
    · exact ⟨batch, h.closed⟩
    · have hready : SlotReady cfg s batch := ⟨h, hclean, hdirty, hbalanced, .inl hopen⟩
      exact hready.appendToOpen hopen hfits hr io
  split
  · exact ⟨batch, h⟩
  · exact (h.opened hclean hbalanced).appendToOpen rfl hfits hr io

/-! ## 6. Every safe run -/

/-- Nothing but an append touches a closed slot. -/
theorem step_closed (hclosed : s.isOpen = false) {op : SlotOp} (hop : ∀ io r, op ≠ .append io r) :
    s.step cfg op = s := by
  cases op with
  | append io r => exact absurd rfl (hop io r)
  | flush io =>
    simp only [FragmentSlot.step, flushFragmentBatch, hclosed, Bool.not_false, Bool.true_or,
      if_true]
  | close retainIdentity io =>
    simp only [FragmentSlot.step, closeFragmentSlot, hclosed, Bool.not_false, if_true]
  | sweep w =>
    simp only [FragmentSlot.step, sweepSlot, hclosed, Bool.not_false, Bool.true_or, if_true]
  | sigSafe identityMatches w =>
    simp only [FragmentSlot.step, sigSafeFlush, hclosed, Bool.not_false, if_true]

/-- **The step lemma.** -/
theorem SlotInv.step {op : SlotOp} (h : SlotInv cfg s batch) (hsafe : SlotSafe cfg s op) :
    ∃ batch', SlotInv cfg (s.step cfg op) batch' := by
  obtain ⟨hclean, hdirty, hbalance, hop⟩ := hsafe
  have hbalanced : Balanced cfg s := .inr hbalance
  by_cases happend : ∃ io r, op = .append io r
  · obtain ⟨io, r, rfl⟩ := happend
    exact h.append hclean hdirty hbalanced hop.1 hop.2 io
  by_cases hclosed : s.isOpen = false
  · rw [step_closed hclosed fun io r he => happend ⟨io, r, he⟩]
    exact ⟨batch, h⟩
  rw [Bool.not_eq_false] at hclosed
  have hready : SlotReady cfg s batch := ⟨h, hclean, hdirty, hbalanced, .inl hclosed⟩
  cases op with
  | append io r => exact absurd ⟨io, r, rfl⟩ happend
  | flush io => exact (hready.flush hclosed io).1
  | close retainIdentity io => exact hready.close retainIdentity io hop
  | sweep w => exact hready.sweep w
  | sigSafe identityMatches w => exact hready.sigSafe identityMatches w (hop hclosed)

/-- **The run lemma.** -/
theorem SlotInv.run (ops : List SlotOp) : ∀ {s : FragmentSlot} {batch : List MonitorRecord},
    SlotInv cfg s batch → SlotSafeRun cfg s ops → ∃ batch', SlotInv cfg (s.run cfg ops) batch' := by
  induction ops with
  | nil => exact fun h _ => ⟨_, h⟩
  | cons op rest ih =>
    intro s batch h hsafe
    obtain ⟨batch', hstep⟩ := h.step hsafe.1
    exact ih hstep hsafe.2

theorem SlotSafeRun.take (ops : List SlotOp) : ∀ {s : FragmentSlot}, SlotSafeRun cfg s ops →
    ∀ n, SlotSafeRun cfg s (ops.take n) := by
  induction ops with
  | nil => exact fun h n => by rwa [List.take_nil]
  | cons op rest ih =>
    intro s h n
    cases n with
    | zero => exact trivial
    | succ n => exact ⟨h.1, ih h.2 n⟩

end Invariant

/-- **Every state of a safe run is honest.** -/
theorem killHonest_of_safe (cfg : SlotConfig) (ops : List SlotOp)
    (h : SlotSafeRun cfg {} ops) (n : Nat) :
    KillHonest cfg (FragmentSlot.run cfg {} (ops.take n)) := by
  obtain ⟨batch, hinv⟩ := (slotInv_start cfg).run (ops.take n) (h.take ops n)
  exact hinv.killHonest

/-! ## 7. One thread's run -/

def slotConfig : SlotConfig where
  osPid := 7
  threadId := 7
  runToken := ⟨str " run=1", by decide⟩
  byteCap := 2 * 1024 * 1024 * 1024

def slotRead : MonitorRecord :=
  { kind := mrFileRead, observationKind := moFileRead, osPid := 7, threadId := 7
    path := str "/a" }

/-- Every byte reaches the file. -/
def allReaches : SlotIo := { write := ⟨FragmentBatchBufLen, false⟩ }

/-- No byte reaches the file, and the write raises. -/
def noneReaches : SlotIo := { write := ⟨0, true⟩ }

/-- A read is flushed, a second one is buffered, and a signal flushes it. -/
def signalledRun : List SlotOp :=
  [.append allReaches slotRead, .flush allReaches, .append allReaches slotRead,
    .sigSafe true ⟨FragmentBatchBufLen, false⟩]

/-- A read is buffered, and the slot is closed while its file cannot be written. -/
def failedClose : List SlotOp := [.append allReaches slotRead, .close false noneReaches]

theorem killHonest_signalledRun :
    SlotSafeRun slotConfig {} signalledRun ∧
      KillHonest slotConfig (FragmentSlot.run slotConfig {} (signalledRun.take 3)) := by
  have hsafe : SlotSafeRun slotConfig {} signalledRun := by decide +kernel
  exact ⟨hsafe, killHonest_of_safe slotConfig signalledRun hsafe 3⟩

/-- **A close over a failed write is not honest**: the read is gone, and the committed marker the
close writes cancels its pending one. -/
theorem killHonest_refuted :
    ¬ ∀ (cfg : SlotConfig) (ops : List SlotOp), KillHonest cfg (FragmentSlot.run cfg {} ops) := by
  intro h
  have hrun := h slotConfig failedClose slotRead (by decide +kernel) rfl (by decide +kernel)
  have hlost : slotRead ∉ (FragmentSlot.run slotConfig {} failedClose).records := by
    decide +kernel
  have heven :
      ¬ committedCount (FragmentSlot.run slotConfig {} failedClose).records slotConfig.key <
        pendingCount (FragmentSlot.run slotConfig {} failedClose).records slotConfig.key := by
    decide +kernel
  have hclean : (FragmentSlot.run slotConfig {} failedClose).clean = true := by
    decide +kernel
  have huncapped :
      ¬ ∃ m ∈ (FragmentSlot.run slotConfig {} failedClose).records, isCapMarker m = true := by
    decide +kernel
  rcases hrun with hin | hpend | htorn | hcap
  · exact hlost hin
  · exact heven hpend
  · rw [hclean] at htorn
    exact absurd htorn (by simp)
  · exact huncapped hcap

end IoMon
