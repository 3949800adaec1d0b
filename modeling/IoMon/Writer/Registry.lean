/-
# The registry of fragment slots

Each thread has a slot of its own.  So that the exit of the process can write out the batches of all
of them, a slot that opens its fragment is entered in a table of the process, and a slot that lets
its handle go is taken out.  A slot lives in its thread's own storage, so an entry that outlived its
thread would name memory that is gone.

A thread works on its slot alone, while the table is shared and locked for one call at a time.  An
operation of a thread therefore changes its slot in one step, and the calls it makes to the registry
follow one by one, with the calls of other threads in between.  A run follows one line of descent:
at a fork it may go on as the child, where only the forking thread is left.

The flush at the exit of a thread is its last recording.  (The destructors of other libraries may
come later and do I/O of their own, which would enter the slot once more.)

  * `registrySound_of_run` -- the table and the slots agree at every point of every run;
  * `registered_of_run` -- with no more live threads than entries, no open slot is missing.
-/
import IoMon.Lib.GuardedRuns
import IoMon.Lib.SlotTable
import IoMon.Writer.ByteCap
import Mathlib.Data.Finset.Insert

namespace IoMon.SlotMachine

open ByteText FixedBuffer SlotTable

def MaxFragmentSlots : Nat := 8192

/-! ## 1. The calls of an operation -/

inductive RegistryCall
  | register
  | unregister
  deriving DecidableEq, Repr

section Calls

variable (cfg : WriterConfig)

/-- A handle that is lost for good is unregistered by `reopenFragmentHandle`. -/
def markerCalls (io : MarkerIo) (s : Slot) : List RegistryCall :=
  if !s.isOpen then []
  else if !io.handleOk then [.unregister]
  else []

def markCalls (io : MarkerIo) (record : MonitorRecord) (s : Slot) : List RegistryCall :=
  if !kindCarriesCapturedDependency record.kind then []
  else if recordSuppressesOnlyADowngrade record then []
  else if s.readingSentinelActive || !s.isOpen then []
  else markerCalls io s

def clearCalls (io : MarkerIo) (s : Slot) : List RegistryCall :=
  if !s.readingSentinelActive then [] else markerCalls io s

def accountCalls (io : AccountIo) (written : Nat) (s : Slot) : List RegistryCall :=
  if s.overCap || !s.isOpen then []
  else
    let s := { s with fragmentBytes := s.fragmentBytes + written }
    if s.fragmentBytes < cfg.fragmentByteCap then []
    else
      let marked :=
        { writeReadTailMarker cfg io.cap FragmentCapReachedDetail s with overCap := true }
      markerCalls io.cap s ++ clearCalls io.committed marked ++ [.unregister]

def flushCalls (io : FlushIo) (s : Slot) : List RegistryCall :=
  if !s.isOpen || s.batchLen == 0 then []
  else if !io.handleOk then [.unregister]
  else
    let bufLen := s.batchLen
    let s := s.emit (.wrote .batch s.isOpen s.batch io.write.reached)
    if io.write.raised then []
    else if io.write.reached < bufLen then []
    else
      let s := { s with batchLen := 0 }
      clearCalls io.committed s ++
        accountCalls cfg io.account bufLen (clearReadingSentinel cfg io.committed s)

def closeCalls (io : CloseIo) (s : Slot) : List RegistryCall :=
  if !s.isOpen then [.unregister]
  else if !io.handleOk then [.unregister]
  else
    flushCalls cfg io.flush s ++
      clearCalls io.committed (flushFragmentBatch cfg io.flush s).1 ++ [.unregister]

def openCalls (openOk : Bool) (key : FragmentKey) (s : Slot) : List RegistryCall :=
  if (openFragmentSlot cfg openOk key s).2.isNone then [.register] else []

def pushCalls (io : AppendIo) (record : MonitorRecord) (s : Slot) : List RegistryCall :=
  match inlineEncode record ⟨s.batchBuf, s.batchLen⟩ with
  | none => []
  | some cursor =>
    let s := { s with batchBuf := cursor.buf, batchLen := cursor.pos }
    markCalls io.pending record (s.emit (.buffered s.isOpen record))

def giantCalls (io : AppendIo) (record : MonitorRecord) (s : Slot) : List RegistryCall :=
  let frame := encodeFrame record
  let s := s.emit (.wrote .giant s.isOpen frame io.direct.reached)
  if io.direct.raised then []
  else if io.direct.reached < frame.length then []
  else accountCalls cfg io.account frame.length s

/-- The calls of the record itself, behind the flush that makes room for it. -/
def storeCalls (io : AppendIo) (record : MonitorRecord) (s : Slot) : List RegistryCall :=
  if FragmentBatchBufLen < inlineFrameLen record then giantCalls cfg io record s
  else pushCalls io record s

def appendToOpenCalls (io : AppendIo) (record : MonitorRecord) (s : Slot) : List RegistryCall :=
  if flushesFirst io record s then
    flushCalls cfg io.flush s ++
      match flushFragmentBatch cfg io.flush s with
      | (_, some _) => []
      | (s, none) => storeCalls cfg io record s
  else storeCalls cfg io record s

/-- The fragment that is left is closed without a call: the slot keeps its entry. -/
def leaveCalls (io : AppendIo) (s : Slot) : List RegistryCall :=
  if s.isOpen then flushCalls cfg io.leave s else []

def appendCalls (io : AppendIo) (fragmentDir : NimStr) (record : MonitorRecord) (s : Slot) :
    List RegistryCall :=
  let key := (fragmentDir, record.osPid, record.threadId)
  if s.overCap && decide (s.key = key) then []
  else if s.isOpen && !io.handleOk then [.unregister]
  else if !s.isOpen || decide (s.key ≠ key) then
    leaveCalls cfg io s ++ openCalls cfg io.openOk key (leaveFragment cfg io s) ++
      match openFragmentSlot cfg io.openOk key (leaveFragment cfg io s) with
      | (_, some _) => []
      | (s, none) => appendToOpenCalls cfg io record s
  else appendToOpenCalls cfg io record s

end Calls

/-! ## 2. The process -/

/-- What a thread does with its slot. -/
inductive ThreadOp
  | append (io : AppendIo) (fragmentDir : NimStr) (record : MonitorRecord)
  | flush (io : FlushIo)
  | close (retainIdentity : Bool) (io : CloseIo)

def ThreadOp.slotOp : ThreadOp → SlotOp
  | append io fragmentDir record => .append io fragmentDir record
  | flush io => .flush io
  | close retainIdentity io => .close retainIdentity io

def ThreadOp.calls (cfg : WriterConfig) (s : Slot) : ThreadOp → List RegistryCall
  | append io fragmentDir record => appendCalls cfg io fragmentDir record s
  | flush io => flushCalls cfg io s
  | close _ io => closeCalls cfg io s

section Process

variable {ι : Type} [DecidableEq ι]

/-- The process.  A thread is named by the address of its slot. -/
structure Process (ι : Type) where
  fragmentSlot : ι → Slot := fun _ => {}
  /-- one-based, and 0 for a slot that is not registered -/
  registryIndex : ι → Nat := fun _ => 0
  registrySlots : List (Option ι) := []
  live : Finset ι := ∅
  /-- the calls of a thread's operation that are still to come -/
  calls : ι → List RegistryCall := fun _ => []
  /-- threads whose exit flush has begun; they record nothing any more -/
  exiting : Finset ι := ∅
  /-- the slots of the threads that are gone -/
  exited : List Slot := []

def registerFragmentSlot (t : ι) (p : Process ι) : Process ι :=
  if p.registryIndex t ≠ 0 then p
  else
    match claim MaxFragmentSlots t p.registrySlots with
    | none => p
    | some (idx, registrySlots) =>
      { p with
        registrySlots := registrySlots
        registryIndex := Function.update p.registryIndex t (idx + 1) }

def unregisterFragmentSlot (t : ι) (p : Process ι) : Process ι :=
  if p.registryIndex t = 0 then p
  else
    { p with
      registrySlots := release (p.registryIndex t - 1) t p.registrySlots
      registryIndex := Function.update p.registryIndex t 0 }

def RegistryCall.apply (t : ι) (p : Process ι) : RegistryCall → Process ι
  | register => registerFragmentSlot t p
  | unregister => unregisterFragmentSlot t p

/-- `flushAllRegisteredSlots` up to the close of the caller's own slot: the entries in order, the
caller's left out. -/
def sweepRegistered (caller : ι) (ios : ι → SweepIo) (p : Process ι) : Process ι :=
  { p with
    fragmentSlot := p.registrySlots.foldl (fun slots entry =>
      match entry with
      | none => slots
      | some t =>
        if t = caller then slots else Function.update slots t (sweepSlot (ios t) (slots t)))
      p.fragmentSlot }

inductive ProcessStep (ι : Type)
  /-- a thread is created, its slot all zero -/
  | start (t : ι)
  | operate (t : ι) (op : ThreadOp)
  /-- the next registry call of a thread's operation -/
  | call (t : ι)
  /-- `threadExitFlushSlot`, the last a thread does with its slot -/
  | exit (t : ι) (io : CloseIo)
  /-- the storage of a thread is released -/
  | reap (t : ι)
  | sweep (caller : ι) (ios : ι → SweepIo)
  /-- the run goes on as the child that `t` has forked: `discardFragmentSlotAfterFork` -/
  | becomeChild (t : ι)

/-- A thread that may begin an operation: it is alive and has finished its last one. -/
def Process.idle (p : Process ι) (t : ι) : Bool :=
  decide (t ∈ p.live) && decide (t ∉ p.exiting) && (p.calls t).isEmpty

def Process.step (cfg : WriterConfig) (p : Process ι) : ProcessStep ι → Option (Process ι)
  | .start t =>
    if t ∈ p.live then none
    else some
      { p with
        live := insert t p.live
        fragmentSlot := Function.update p.fragmentSlot t {}
        registryIndex := Function.update p.registryIndex t 0 }
  | .operate t op =>
    if p.idle t then some
      { p with
        fragmentSlot :=
          Function.update p.fragmentSlot t (Slot.step cfg (p.fragmentSlot t) op.slotOp)
        calls := Function.update p.calls t (op.calls cfg (p.fragmentSlot t)) }
    else none
  | .call t =>
    match p.calls t with
    | [] => none
    | c :: rest => some (c.apply t { p with calls := Function.update p.calls t rest })
  | .exit t io =>
    if p.idle t then some
      { p with
        fragmentSlot :=
          Function.update p.fragmentSlot t (closeFragmentSlot cfg false io (p.fragmentSlot t))
        calls := Function.update p.calls t (closeCalls cfg io (p.fragmentSlot t))
        exiting := insert t p.exiting }
    else none
  | .reap t =>
    if t ∈ p.exiting ∧ p.calls t = [] then some
      { p with
        live := p.live.erase t
        exiting := p.exiting.erase t
        exited := p.fragmentSlot t :: p.exited }
    else none
  | .sweep caller ios => if p.idle caller then some (sweepRegistered caller ios p) else none
  | .becomeChild t =>
    if p.idle t then some
      { fragmentSlot :=
          Function.update p.fragmentSlot t (discardFragmentSlotAfterFork (p.fragmentSlot t))
        registryIndex := Function.update p.registryIndex t 0
        live := {t} }
    else none

abbrev Process.run (cfg : WriterConfig) (p : Process ι) (steps : List (ProcessStep ι)) :
    Option (Process ι) :=
  GuardedRuns.run (Process.step cfg) p steps

theorem idle_iff {p : Process ι} {t : ι} :
    p.idle t = true ↔ t ∈ p.live ∧ t ∉ p.exiting ∧ p.calls t = [] := by
  simp [Process.idle, and_assoc]

/-- What a step was, and what it allowed. -/
inductive Took (cfg : WriterConfig) (p : Process ι) : ProcessStep ι → Process ι → Prop
  | start {t : ι} (hdead : t ∉ p.live) : Took cfg p (.start t)
      { p with
        live := insert t p.live
        fragmentSlot := Function.update p.fragmentSlot t {}
        registryIndex := Function.update p.registryIndex t 0 }
  | operate {t : ι} {op : ThreadOp} (hlive : t ∈ p.live) (hstays : t ∉ p.exiting)
      (hidle : p.calls t = []) : Took cfg p (.operate t op)
      { p with
        fragmentSlot :=
          Function.update p.fragmentSlot t (Slot.step cfg (p.fragmentSlot t) op.slotOp)
        calls := Function.update p.calls t (op.calls cfg (p.fragmentSlot t)) }
  | call {t : ι} {c : RegistryCall} {rest : List RegistryCall} (hcalls : p.calls t = c :: rest) :
      Took cfg p (.call t) (c.apply t { p with calls := Function.update p.calls t rest })
  | exit {t : ι} {io : CloseIo} (hlive : t ∈ p.live) (hstays : t ∉ p.exiting)
      (hidle : p.calls t = []) : Took cfg p (.exit t io)
      { p with
        fragmentSlot :=
          Function.update p.fragmentSlot t (closeFragmentSlot cfg false io (p.fragmentSlot t))
        calls := Function.update p.calls t (closeCalls cfg io (p.fragmentSlot t))
        exiting := insert t p.exiting }
  | reap {t : ι} (hexiting : t ∈ p.exiting) (hdone : p.calls t = []) : Took cfg p (.reap t)
      { p with
        live := p.live.erase t
        exiting := p.exiting.erase t
        exited := p.fragmentSlot t :: p.exited }
  | sweep {caller : ι} {ios : ι → SweepIo} (hlive : caller ∈ p.live)
      (hidle : p.calls caller = []) :
      Took cfg p (.sweep caller ios) (sweepRegistered caller ios p)
  | becomeChild {t : ι} (hlive : t ∈ p.live) (hidle : p.calls t = []) :
      Took cfg p (.becomeChild t)
      { fragmentSlot :=
          Function.update p.fragmentSlot t (discardFragmentSlotAfterFork (p.fragmentSlot t))
        registryIndex := Function.update p.registryIndex t 0
        live := {t} }

theorem step_took {cfg : WriterConfig} {p p' : Process ι} {a : ProcessStep ι}
    (h : p.step cfg a = some p') : Took cfg p a p' := by
  cases a with
  | start t =>
    simp only [Process.step] at h
    split at h
    · exact absurd h (by simp)
    · rename_i hdead
      cases h
      exact .start hdead
  | operate t op =>
    simp only [Process.step] at h
    split at h
    · rename_i hidle
      obtain ⟨hlive, hstays, hcalls⟩ := idle_iff.mp hidle
      cases h
      exact .operate hlive hstays hcalls
    · exact absurd h (by simp)
  | call t =>
    simp only [Process.step] at h
    split at h
    · exact absurd h (by simp)
    · rename_i hcalls
      cases h
      exact .call hcalls
  | exit t io =>
    simp only [Process.step] at h
    split at h
    · rename_i hidle
      obtain ⟨hlive, hstays, hcalls⟩ := idle_iff.mp hidle
      cases h
      exact .exit hlive hstays hcalls
    · exact absurd h (by simp)
  | reap t =>
    simp only [Process.step] at h
    split at h
    · rename_i hdone
      cases h
      exact .reap hdone.1 hdone.2
    · exact absurd h (by simp)
  | sweep caller ios =>
    simp only [Process.step] at h
    split at h
    · rename_i hidle
      obtain ⟨hlive, -, hcalls⟩ := idle_iff.mp hidle
      cases h
      exact .sweep hlive hcalls
    · exact absurd h (by simp)
  | becomeChild t =>
    simp only [Process.step] at h
    split at h
    · rename_i hidle
      obtain ⟨hlive, -, hcalls⟩ := idle_iff.mp hidle
      cases h
      exact .becomeChild hlive hcalls
    · exact absurd h (by simp)

end Process

/-! ## 3. What an operation leaves of the registration -/

/-- Whether a slot is registered after a list of calls, where the table has room. -/
def registeredAfter : Bool → List RegistryCall → Bool
  | registered, [] => registered
  | _, .register :: rest => registeredAfter true rest
  | _, .unregister :: rest => registeredAfter false rest

theorem registeredAfter_append (cs ds : List RegistryCall) : ∀ b : Bool,
    registeredAfter b (cs ++ ds) = registeredAfter (registeredAfter b cs) ds := by
  induction cs with
  | nil => exact fun _ => rfl
  | cons c rest ih =>
    intro b
    cases c with
    | register => exact ih true
    | unregister => exact ih false

/-- A slot that was registered is so afterwards if one that was not is. -/
theorem registeredAfter_mono (cs : List RegistryCall) {b : Bool}
    (h : registeredAfter true cs = false) : registeredAfter b cs = false := by
  cases cs with
  | nil => exact absurd h (by simp [registeredAfter])
  | cons c rest => cases c <;> exact h

/-- An open slot is registered. -/
def Covered (s : Slot) (registered : Bool) : Prop := s.isOpen = true → registered = true

section Covers

variable (cfg : WriterConfig) {s s' : Slot} {b : Bool}

theorem Covered.of_closed (h : s.isOpen = false) (b : Bool) : Covered s b :=
  fun hopen => absurd hopen (by simp [h])

theorem Covered.marker (h : Covered s b) (io : MarkerIo) (detail : NimStr) :
    Covered (writeReadTailMarker cfg io detail s) (registeredAfter b (markerCalls io s)) := by
  unfold writeReadTailMarker markerCalls
  split
  · exact h
  split
  · exact .of_closed rfl _
  · exact h

theorem Covered.mark (h : Covered s b) (io : MarkerIo) (record : MonitorRecord) :
    Covered (markReadingSentinel cfg io record s)
      (registeredAfter b (markCalls io record s)) := by
  unfold markReadingSentinel markCalls
  split
  · exact h
  split
  · exact h
  split
  · exact h
  · exact h.marker cfg io ReadTailPendingDetail

theorem Covered.clear (h : Covered s b) (io : MarkerIo) :
    Covered (clearReadingSentinel cfg io s) (registeredAfter b (clearCalls io s)) := by
  unfold clearReadingSentinel clearCalls
  split
  · exact h
  · exact h.marker cfg io ReadTailCommittedDetail

theorem Covered.account (h : Covered s b) (io : AccountIo) (written : Nat) :
    Covered (accountFragmentBytes cfg io written s)
      (registeredAfter b (accountCalls cfg io written s)) := by
  unfold accountFragmentBytes accountCalls
  split
  · exact h
  simp only
  split
  · exact h
  · exact .of_closed rfl _

theorem Covered.flush (h : Covered s b) (io : FlushIo) :
    Covered (flushFragmentBatch cfg io s).1 (registeredAfter b (flushCalls cfg io s)) := by
  unfold flushFragmentBatch flushCalls
  split
  · exact h
  split
  · exact .of_closed rfl _
  simp only
  split
  · exact h
  split
  · exact h
  · rw [registeredAfter_append]
    have hwrote : Covered
        { s.emit (.wrote .batch s.isOpen s.batch io.write.reached) with batchLen := 0 } b := h
    exact (hwrote.clear cfg io.committed).account cfg io.account s.batchLen

theorem close_isOpen (retainIdentity : Bool) (io : CloseIo) (s : Slot) :
    (closeFragmentSlot cfg retainIdentity io s).isOpen = false := by
  unfold closeFragmentSlot
  split
  · rename_i hclosed
    simpa using hclosed
  · split <;> rfl

/-- **A close ends unregistered**, whatever it met. -/
theorem close_unregisters (io : CloseIo) (s : Slot) (b : Bool) :
    registeredAfter b (closeCalls cfg io s) = false := by
  unfold closeCalls
  split
  · rfl
  split
  · rfl
  · rw [registeredAfter_append]
    rfl

theorem leave_isOpen (io : AppendIo) (s : Slot) : (leaveFragment cfg io s).isOpen = false := by
  unfold leaveFragment
  split
  · rfl
  · rename_i hclosed
    simpa using hclosed

theorem Covered.opened (hclosed : s.isOpen = false) (openOk : Bool) (key : FragmentKey) :
    Covered (openFragmentSlot cfg openOk key s).1
      (registeredAfter b (openCalls cfg openOk key s)) := by
  unfold openCalls
  cases hresult : openFragmentSlot cfg openOk key s with
  | mk u raised =>
    cases raised with
    | none => exact fun _ => rfl
    | some e =>
      -- the open failed, and the slot is as it was
      rw [openFragmentSlot_failed hresult]
      exact .of_closed hclosed _

theorem Covered.push (h : Covered s b) (io : AppendIo) (record : MonitorRecord) :
    Covered (pushFrame cfg io record s).1 (registeredAfter b (pushCalls io record s)) := by
  unfold pushFrame pushCalls
  cases inlineEncode record ⟨s.batchBuf, s.batchLen⟩ with
  | none => exact h
  | some cursor =>
    have hbuffered : Covered ({ s with batchBuf := cursor.buf, batchLen := cursor.pos }.emit
        (.buffered s.isOpen record)) b := h
    exact hbuffered.mark cfg io.pending record

theorem Covered.giant (h : Covered s b) (io : AppendIo) (record : MonitorRecord) :
    Covered (writeGiantFrame cfg io record s).1
      (registeredAfter b (giantCalls cfg io record s)) := by
  unfold writeGiantFrame giantCalls
  simp only
  split
  · exact h
  split
  · exact h
  · have hwrote : Covered
        (s.emit (.wrote .giant s.isOpen (encodeFrame record) io.direct.reached)) b := h
    exact hwrote.account cfg io.account _

theorem Covered.appendToOpen (h : Covered s b) (io : AppendIo) (record : MonitorRecord) :
    Covered (appendToOpen cfg io record s).1
      (registeredAfter b (appendToOpenCalls cfg io record s)) := by
  have hstore {u : Slot} {b : Bool} (hu : Covered u b) :
      Covered (if FragmentBatchBufLen < inlineFrameLen record then writeGiantFrame cfg io record u
        else pushFrame cfg io record u).1 (registeredAfter b (storeCalls cfg io record u)) := by
    unfold storeCalls
    split
    · exact hu.giant cfg io record
    · exact hu.push cfg io record
  unfold SlotMachine.appendToOpen appendToOpenCalls
  by_cases hfirst : flushesFirst io record s = true
  · rw [if_pos hfirst, if_pos hfirst, registeredAfter_append]
    have hflushed := h.flush cfg io.flush
    cases hflush : flushFragmentBatch cfg io.flush s with
    | mk u raised =>
      rw [hflush] at hflushed
      cases raised with
      | some e => exact hflushed
      | none => exact hstore hflushed
  · rw [if_neg hfirst, if_neg hfirst]
    exact hstore h

theorem Covered.append (h : Covered s b) (io : AppendIo) (fragmentDir : NimStr)
    (record : MonitorRecord) :
    Covered (appendFragmentRecord cfg io fragmentDir record s).1
      (registeredAfter b (appendCalls cfg io fragmentDir record s)) := by
  unfold appendFragmentRecord appendCalls
  simp only
  split
  · exact h
  split
  · exact .of_closed rfl _
  split
  · -- the slot leaves its fragment, opens the next and registers with it
    rw [registeredAfter_append, registeredAfter_append]
    have hopened := Covered.opened cfg (b := registeredAfter b (leaveCalls cfg io s))
      (leave_isOpen cfg io s) io.openOk (fragmentDir, record.osPid, record.threadId)
    cases hresult : openFragmentSlot cfg io.openOk (fragmentDir, record.osPid, record.threadId)
        (leaveFragment cfg io s) with
    | mk u raised =>
      rw [hresult] at hopened
      cases raised with
      | some e => exact hopened
      | none => exact hopened.appendToOpen cfg io record
  · exact h.appendToOpen cfg io record

/-- **An operation whose calls are all granted** leaves no open slot unregistered. -/
theorem Covered.operate (h : Covered s b) (op : ThreadOp) :
    Covered (Slot.step cfg s op.slotOp) (registeredAfter b (op.calls cfg s)) := by
  cases op with
  | append io fragmentDir record => exact h.append cfg io fragmentDir record
  | flush io => exact h.flush cfg io
  | close retainIdentity io => exact .of_closed (close_isOpen cfg retainIdentity io s) _

end Covers

/-! ## 4. The table and the slots agree -/

section Runs

variable {ι : Type} [DecidableEq ι] {p p' : Process ι} {t : ι}

/-- **The table and the slots agree**: an entry names a live thread whose slot names the entry, and
every registered slot has its entry. -/
structure RegistrySound (p : Process ι) : Prop where
  entry : ∀ i t, Holds p.registrySlots i t ↔ t ∈ p.live ∧ p.registryIndex t = i + 1
  bounded : p.registrySlots.length ≤ MaxFragmentSlots

/-- What a registry call of `t` leaves alone. -/
structure CallFrame (t : ι) (p p' : Process ι) : Prop where
  fragmentSlot : p'.fragmentSlot = p.fragmentSlot
  live : p'.live = p.live
  calls : p'.calls = p.calls
  exiting : p'.exiting = p.exiting
  exited : p'.exited = p.exited
  others : ∀ u, u ≠ t → p'.registryIndex u = p.registryIndex u

theorem registerFragmentSlot_frame (t : ι) (p : Process ι) :
    CallFrame t p (registerFragmentSlot t p) := by
  unfold registerFragmentSlot
  split
  · exact ⟨rfl, rfl, rfl, rfl, rfl, fun _ _ => rfl⟩
  split
  · exact ⟨rfl, rfl, rfl, rfl, rfl, fun _ _ => rfl⟩
  · exact ⟨rfl, rfl, rfl, rfl, rfl, fun _ hu => Function.update_of_ne hu ..⟩

theorem unregisterFragmentSlot_frame (t : ι) (p : Process ι) :
    CallFrame t p (unregisterFragmentSlot t p) := by
  unfold unregisterFragmentSlot
  split
  · exact ⟨rfl, rfl, rfl, rfl, rfl, fun _ _ => rfl⟩
  · exact ⟨rfl, rfl, rfl, rfl, rfl, fun _ hu => Function.update_of_ne hu ..⟩

theorem RegistryCall.frame (t : ι) (p : Process ι) (c : RegistryCall) :
    CallFrame t p (c.apply t p) := by
  cases c with
  | register => exact registerFragmentSlot_frame t p
  | unregister => exact unregisterFragmentSlot_frame t p

/-- After its own `unregister` a slot has no index. -/
theorem unregisterFragmentSlot_index (t : ι) (p : Process ι) :
    (unregisterFragmentSlot t p).registryIndex t = 0 := by
  unfold unregisterFragmentSlot
  split
  · assumption
  · exact Function.update_self ..

theorem RegistrySound.register (h : RegistrySound p) (ht : t ∈ p.live) :
    RegistrySound (registerFragmentSlot t p) := by
  unfold registerFragmentSlot
  split
  · exact h
  rename_i hindex
  have hindex : p.registryIndex t = 0 := by simpa using hindex
  split
  · exact h
  rename_i idx table hclaim
  refine ⟨fun i u => ?_, claim_length hclaim h.bounded⟩
  rw [holds_claim hclaim, h.entry]
  by_cases hu : u = t
  · subst hu
    simp only [Function.update_self, hindex, ht, true_and, and_true]
    omega
  · simp [hu]

theorem RegistrySound.unregister (h : RegistrySound p) :
    RegistrySound (unregisterFragmentSlot t p) := by
  unfold unregisterFragmentSlot
  split
  · exact h
  rename_i hindex
  refine ⟨fun i u => ?_, (release_length _ t _).trans_le h.bounded⟩
  rw [holds_release, h.entry]
  by_cases hu : u = t
  · subst hu
    simp only [Function.update_self, and_true]
    constructor
    · rintro ⟨⟨-, hheld⟩, hother⟩
      omega
    · rintro ⟨-, hnone⟩
      omega
  · simp [hu]

/-- With fewer live threads than entries a `register` is granted. -/
theorem RegistrySound.register_index (h : RegistrySound p) (ht : t ∈ p.live)
    (hfew : p.live.card ≤ MaxFragmentSlots) :
    (registerFragmentSlot t p).registryIndex t ≠ 0 := by
  unfold registerFragmentSlot
  split
  · assumption
  rename_i hindex
  have hindex : p.registryIndex t = 0 := by simpa using hindex
  have hgranted : (claim MaxFragmentSlots t p.registrySlots).isSome = true := by
    -- the table names live threads other than `t`, each once
    refine claim_isSome t (fun i j u hi hj => ?_) (S := p.live.erase t) (fun i u hi => ?_) ?_
    · have hi := ((h.entry i u).mp hi).2
      have hj := ((h.entry j u).mp hj).2
      omega
    · obtain ⟨hlive, hheld⟩ := (h.entry i u).mp hi
      refine Finset.mem_erase.mpr ⟨?_, hlive⟩
      rintro rfl
      omega
    · exact (Finset.card_erase_lt_of_mem ht).trans_le hfew
  split
  · rename_i hnone
    rw [hnone] at hgranted
    exact absurd hgranted (by simp)
  · simp

/-- A sweep changes slots by `sweepSlot` alone. -/
theorem sweepRegistered_slot {P : Slot → Prop} (hsweep : ∀ io s, P s → P (sweepSlot io s))
    (caller : ι) (ios : ι → SweepIo) (u : ι) (h : P (p.fragmentSlot u)) :
    P ((sweepRegistered caller ios p).fragmentSlot u) := by
  unfold sweepRegistered
  simp only
  generalize p.fragmentSlot = slots at h
  generalize p.registrySlots = table
  induction table generalizing slots with
  | nil => exact h
  | cons entry rest ih =>
    rw [List.foldl_cons]
    refine ih _ ?_
    cases entry with
    | none => exact h
    | some v =>
      simp only
      split
      · exact h
      · by_cases hv : u = v
        · subst hv
          rw [Function.update_self]
          exact hsweep _ _ h
        · rwa [Function.update_of_ne hv]

/-! The invariant of a run: beside the table, a thread whose storage is gone makes no calls, and one
that is exiting will be unregistered when its calls are done. -/

structure ProcessInv (p : Process ι) : Prop extends RegistrySound p where
  gone : ∀ t, t ∉ p.live → p.calls t = []
  exits : ∀ t ∈ p.exiting, t ∈ p.live ∧
    registeredAfter (decide (p.registryIndex t ≠ 0)) (p.calls t) = false

omit [DecidableEq ι] in
theorem processInv_start : ProcessInv ({} : Process ι) where
  entry i t := by simp
  bounded := Nat.zero_le _
  gone _ _ := rfl
  exits t h := absurd h (Finset.notMem_empty t)

/-- A child starts with an empty table, whatever its parent's looked like. -/
theorem processInv_child (slots : ι → Slot) (index : ι → Nat) (t : ι) :
    ProcessInv
      { fragmentSlot := slots, registryIndex := Function.update index t 0, live := {t} } where
  entry i u := by
    simp only [not_holds_nil, Finset.mem_singleton, false_iff, not_and]
    rintro rfl
    simp
  bounded := Nat.zero_le _
  gone _ _ := rfl
  exits u hu := absurd hu (Finset.notMem_empty u)

theorem ProcessInv.call (h : ProcessInv p) {c : RegistryCall} {rest : List RegistryCall}
    (hcalls : p.calls t = c :: rest) :
    ProcessInv (c.apply t { p with calls := Function.update p.calls t rest }) := by
  have ht : t ∈ p.live := by
    by_contra hgone
    rw [h.gone t hgone] at hcalls
    exact absurd hcalls (by simp)
  have hframe := c.frame t { p with calls := Function.update p.calls t rest }
  have hsound : RegistrySound { p with calls := Function.update p.calls t rest } :=
    ⟨h.entry, h.bounded⟩
  refine { toRegistrySound := ?_, gone := fun u hu => ?_, exits := fun u hu => ?_ }
  · cases c with
    | register => exact hsound.register ht
    | unregister => exact hsound.unregister
  · rw [hframe.live] at hu
    rw [hframe.calls]
    have hne : u ≠ t := fun heq => hu (heq ▸ ht)
    exact (Function.update_of_ne hne ..).trans (h.gone u hu)
  · rw [hframe.exiting] at hu
    obtain ⟨hlive, hafter⟩ := h.exits u hu
    rw [hframe.live, hframe.calls]
    refine ⟨hlive, ?_⟩
    by_cases hut : u = t
    · subst hut
      rw [hcalls] at hafter
      simp only [Function.update_self]
      cases c with
      | register => exact registeredAfter_mono rest hafter
      | unregister =>
        rw [RegistryCall.apply, unregisterFragmentSlot_index]
        exact hafter
    · rw [hframe.others u hut]
      simp only [Function.update_of_ne hut]
      exact hafter

variable (cfg : WriterConfig)

/-- **The step lemma of the registry.** -/
theorem ProcessInv.step (h : ProcessInv p) {a : ProcessStep ι} (hstep : p.step cfg a = some p') :
    ProcessInv p' := by
  cases step_took hstep with
  | @start t hdead =>
    refine { entry := fun i u => ?_, bounded := h.bounded, gone := fun u hu => ?_,
             exits := fun u hu => ?_ }
    · rw [h.entry]
      by_cases hut : u = t
      · subst hut
        simp [hdead]
      · simp [hut]
    · exact h.gone u fun hlive => hu (Finset.mem_insert_of_mem hlive)
    · obtain ⟨hlive, hafter⟩ := h.exits u hu
      have hne : u ≠ t := fun heq => hdead (heq ▸ hlive)
      exact ⟨Finset.mem_insert_of_mem hlive,
        by simpa only [Function.update_of_ne hne] using hafter⟩
  | @operate t op hlive hstays =>
    refine { entry := h.entry, bounded := h.bounded, gone := fun u hu => ?_,
             exits := fun u hu => ?_ }
    · have hne : u ≠ t := fun heq => hu (heq ▸ hlive)
      exact (Function.update_of_ne hne ..).trans (h.gone u hu)
    · have hne : u ≠ t := fun heq => hstays (heq ▸ hu)
      obtain ⟨hl, hafter⟩ := h.exits u hu
      exact ⟨hl, by simpa only [Function.update_of_ne hne] using hafter⟩
  | call hcalls => exact h.call hcalls
  | @exit t io hlive =>
    refine { entry := h.entry, bounded := h.bounded, gone := fun u hu => ?_,
             exits := fun u hu => ?_ }
    · have hne : u ≠ t := fun heq => hu (heq ▸ hlive)
      exact (Function.update_of_ne hne ..).trans (h.gone u hu)
    · by_cases hut : u = t
      · subst hut
        refine ⟨hlive, ?_⟩
        simp only [Function.update_self]
        exact close_unregisters cfg io _ _
      · obtain ⟨hl, hafter⟩ := h.exits u (Finset.mem_of_mem_insert_of_ne hu hut)
        exact ⟨hl, by simpa only [Function.update_of_ne hut] using hafter⟩
  | @reap t hexiting hdone =>
    -- the exit flush has unregistered the slot before its storage goes
    have hindex : p.registryIndex t = 0 := by
      have hafter := (h.exits t hexiting).2
      rw [hdone] at hafter
      simpa [registeredAfter] using hafter
    refine { entry := fun i u => ?_, bounded := h.bounded, gone := fun u hu => ?_,
             exits := fun u hu => ?_ }
    · rw [h.entry, Finset.mem_erase]
      by_cases hut : u = t
      · subst hut
        simp [hindex]
      · simp [hut]
    · by_cases hut : u = t
      · exact hut ▸ hdone
      · exact h.gone u fun hlive => hu (Finset.mem_erase.mpr ⟨hut, hlive⟩)
    · obtain ⟨hne, hexit⟩ := Finset.mem_erase.mp hu
      obtain ⟨hl, hafter⟩ := h.exits u hexit
      exact ⟨Finset.mem_erase.mpr ⟨hne, hl⟩, hafter⟩
  | sweep => exact ⟨⟨h.entry, h.bounded⟩, h.gone, h.exits⟩
  | becomeChild => exact processInv_child _ _ _

/-- **The registry is sound in every run**: whatever the threads do and in whatever order, across
thread exits and forks, the table names exactly the registered slots of live threads. -/
theorem registrySound_of_run {steps : List (ProcessStep ι)}
    (h : Process.run cfg {} steps = some p) : RegistrySound p :=
  (GuardedRuns.invariant (fun h hs => ProcessInv.step cfg h hs) steps processInv_start
    h).toRegistrySound

/-- A thread opens its fragment and is registered; another one exits unopened. -/
def openedRun : List (ProcessStep Nat) :=
  [.start 7, .start 8, .operate 7 (.append appendDone (str "/f") startRecord), .exit 8 closeDone,
    .call 7, .call 8, .reap 8]

/-- What is evaluated of `openedRun`. -/
theorem openedRun_runs : ∃ p, Process.run plainConfig {} openedRun = some p ∧
    p.registrySlots = [some 7] ∧ p.calls 7 = [] ∧ p.live = {7} ∧
      (p.fragmentSlot 7).isOpen = true := by
  have hruns : (Process.run plainConfig {} openedRun).map (fun p =>
      (p.registrySlots, p.calls 7, p.live, (p.fragmentSlot 7).isOpen)) =
      some ([some 7], [], {7}, true) := by decide +kernel
  obtain ⟨p, hp, hfields⟩ := Option.map_eq_some_iff.mp hruns
  simp only [Prod.mk.injEq] at hfields
  exact ⟨p, hp, hfields⟩

theorem registrySound_openedRun : ∃ p, Process.run plainConfig {} openedRun = some p ∧
    RegistrySound p ∧ Holds p.registrySlots 0 7 := by
  obtain ⟨p, hp, hslots, -⟩ := openedRun_runs
  exact ⟨p, hp, registrySound_of_run plainConfig hp, by rw [hslots]; rfl⟩

/-! ## 5. No open slot is missing -/

theorem sweep_isOpen (io : SweepIo) (s : Slot) : (sweepSlot io s).isOpen = s.isOpen := by
  unfold sweepSlot
  split
  · simp only
    split <;> rfl
  · rfl

/-- The open slots of live threads are registered, or will be when the calls of their thread's
operation are done. -/
structure AllCovered (p : Process ι) : Prop extends ProcessInv p where
  covered : ∀ t ∈ p.live,
    Covered (p.fragmentSlot t) (registeredAfter (decide (p.registryIndex t ≠ 0)) (p.calls t))

theorem AllCovered.step (h : AllCovered p) (hfew : p.live.card ≤ MaxFragmentSlots)
    {a : ProcessStep ι} (hstep : p.step cfg a = some p') : AllCovered p' := by
  refine { toProcessInv := h.toProcessInv.step cfg hstep, covered := ?_ }
  intro u hu
  cases step_took hstep with
  | @start t =>
    by_cases hut : u = t
    · subst hut
      refine .of_closed ?_ _
      simp
    · simp only [Function.update_of_ne hut]
      exact h.covered u (Finset.mem_of_mem_insert_of_ne hu hut)
  | @operate t op _ _ hidle =>
    by_cases hut : u = t
    · subst hut
      have hbefore := h.covered u hu
      rw [hidle] at hbefore
      simp only [Function.update_self]
      exact hbefore.operate cfg op
    · simp only [Function.update_of_ne hut]
      exact h.covered u hu
  | @call t c rest hcalls =>
    have hframe := c.frame t { p with calls := Function.update p.calls t rest }
    rw [hframe.live] at hu
    rw [hframe.fragmentSlot, hframe.calls]
    by_cases hut : u = t
    · subst hut
      have hbefore := h.covered u hu
      rw [hcalls] at hbefore
      simp only [Function.update_self]
      cases c with
      | register =>
        -- the table has room, so the call is granted
        have hsound : RegistrySound { p with calls := Function.update p.calls u rest } :=
          ⟨h.entry, h.bounded⟩
        have hindex := hsound.register_index hu hfew
        rw [RegistryCall.apply, decide_eq_true hindex]
        exact hbefore
      | unregister =>
        rw [RegistryCall.apply, unregisterFragmentSlot_index]
        exact hbefore
    · rw [hframe.others u hut]
      simp only [Function.update_of_ne hut]
      exact h.covered u hu
  | @exit t io =>
    by_cases hut : u = t
    · subst hut
      refine .of_closed ?_ _
      simp only [Function.update_self]
      exact close_isOpen cfg false io _
    · simp only [Function.update_of_ne hut]
      exact h.covered u hu
  | reap => exact h.covered u (Finset.mem_of_mem_erase hu)
  | @sweep caller ios =>
    exact sweepRegistered_slot
      (P := fun s => Covered s (registeredAfter (decide (p.registryIndex u ≠ 0)) (p.calls u)))
      (fun io s hs hopen => hs (sweep_isOpen io s ▸ hopen)) caller ios u (h.covered u hu)
  | becomeChild =>
    refine .of_closed ?_ _
    rw [Finset.mem_singleton.mp hu]
    simp [discardFragmentSlotAfterFork, Slot.emit]

/-- At no step of the run are there more live threads than entries. -/
def FewThreads (cfg : WriterConfig) (p : Process ι) (steps : List (ProcessStep ι)) : Prop :=
  GuardedRuns.Meets (Process.step cfg) (fun p _ => p.live.card ≤ MaxFragmentSlots) p steps

omit [DecidableEq ι] in
theorem allCovered_start : AllCovered ({} : Process ι) :=
  { toProcessInv := processInv_start, covered := fun t ht => absurd ht (Finset.notMem_empty t) }

/-- **No open slot is missing from the registry**: with never more live threads than entries, a
thread between two operations that has its fragment open is in the table. -/
theorem registered_of_run {steps : List (ProcessStep ι)}
    (h : Process.run cfg {} steps = some p) (hfew : FewThreads cfg {} steps) {t : ι}
    (ht : t ∈ p.live) (hdone : p.calls t = []) (hopen : (p.fragmentSlot t).isOpen = true) :
    ∃ i, Holds p.registrySlots i t := by
  have hall : AllCovered p :=
    GuardedRuns.invariant_of_meets (fun h hfew hs => AllCovered.step cfg h hfew hs) steps
      allCovered_start hfew h
  have hcovered := hall.covered t ht hopen
  rw [hdone, registeredAfter, decide_eq_true_iff] at hcovered
  exact ⟨p.registryIndex t - 1, (hall.entry _ t).mpr ⟨ht, by omega⟩⟩

/-- A step adds at most one thread. -/
theorem step_live_card {a : ProcessStep ι} (hstep : p.step cfg a = some p') :
    p'.live.card ≤ p.live.card + 1 := by
  cases step_took hstep with
  | start => exact Finset.card_insert_le _ p.live
  | operate => exact Nat.le_succ _
  | @call t c rest =>
    rw [(c.frame t { p with calls := Function.update p.calls t rest }).live]
    exact Nat.le_succ _
  | exit => exact Nat.le_succ _
  | reap => exact Finset.card_erase_le.trans (Nat.le_succ _)
  | sweep => exact Nat.le_succ _
  | becomeChild =>
    rw [Finset.card_singleton]
    exact Nat.le_add_left 1 _

/-- A short run has few threads. -/
theorem fewThreads_of_length : ∀ (steps : List (ProcessStep ι)) {p : Process ι},
    p.live.card + steps.length ≤ MaxFragmentSlots → FewThreads cfg p steps
  | [], _, _ => trivial
  | a :: rest, p, hshort => by
    rw [List.length_cons] at hshort
    refine ⟨by omega, fun p' hstep => fewThreads_of_length rest ?_⟩
    have hgrows := step_live_card cfg hstep
    omega

theorem registered_openedRun : ∃ p, Process.run plainConfig {} openedRun = some p ∧
    ∃ i, Holds p.registrySlots i 7 := by
  obtain ⟨p, hp, -, hdone, hlive, hopen⟩ := openedRun_runs
  have hfew : FewThreads plainConfig {} openedRun := fewThreads_of_length plainConfig _ (by decide)
  exact ⟨p, hp, registered_of_run plainConfig hp hfew (by rw [hlive]; simp) hdone hopen⟩

end Runs

end IoMon.SlotMachine
