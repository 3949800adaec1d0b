/-
# What the exit of a process and a fork leave behind

Two things go over the slots of other threads.  The exit of the process writes out the batch of
every registered slot, so that a thread which is still alive does not lose its tail.  A fork copies
all of them into the child, where their threads do not exist; the child empties its copy of the
table.

  * `HandedOver` -- what a log should say of every buffered record;
  * `shutdown_settles` -- the shutdown hands over what any thread of the process has buffered;
  * `child_leaves_alone` -- nothing the child does touches a slot of its parent's other threads.
-/
import IoMon.Writer.Registry

namespace IoMon.SlotMachine

open ByteText FixedBuffer SlotTable

/-! ## 1. What becomes of a buffered record -/

/-- What stands behind the buffering of a record: the next batch write is made while the slot is
open, and its frame is among the bytes.  A handle that is lost before, or left to the parent of a
fork, takes the record with it; one that is closed may not. -/
def HandedIn (r : MonitorRecord) : List SlotEvent → Prop
  | [] => False
  | .wrote .batch slotOpen bytes _ :: _ => slotOpen = true ∧ encodeFrame r <:+: bytes
  | .closed :: _ => False
  | .givenUp :: _ => True
  | _ :: rest => HandedIn r rest

/-- **Every buffered record is handed to a write**, unless its handle is lost first. -/
def HandedOver (log : List SlotEvent) : Prop :=
  ∀ before slotOpen r behind, log = before ++ .buffered slotOpen r :: behind →
    slotOpen = true ∧ HandedIn r behind

theorem encodeFrame_mem {r : MonitorRecord} {rs : List MonitorRecord} (h : r ∈ rs) :
    encodeFrame r <:+: framesOf rs := by
  obtain ⟨before, behind, rfl⟩ := List.append_of_mem h
  exact ⟨framesOf before, framesOf behind, by simp [framesOf]⟩

/-- A record that is owed is handed in, once nothing is owed. -/
theorem handedIn_of_owed (log : List SlotEvent) : ∀ {owed : List MonitorRecord} {r : MonitorRecord},
    r ∈ owed → log.foldlM owedAfter owed = some [] → HandedIn r log := by
  induction log with
  | nil =>
    intro owed r hr h
    rw [Option.some.inj h] at hr
    exact absurd hr List.not_mem_nil
  | cons e rest ih =>
    intro owed r hr h
    rw [List.foldlM_cons, Option.bind_eq_bind, Option.bind_eq_some_iff] at h
    obtain ⟨owed', he, hrest⟩ := h
    cases e with
    | wrote kind slotOpen bytes reached =>
      cases kind with
      | batch =>
        rw [owedAfter] at he
        split at he
        · rename_i hpaid
          exact ⟨hpaid.1, (encodeFrame_mem hr).trans hpaid.2.isInfix⟩
        · exact absurd he (by simp)
      | giant =>
        rw [← Option.some.inj he] at hrest
        exact ih hr hrest
      | marker detail =>
        rw [← Option.some.inj he] at hrest
        exact ih hr hrest
    | buffered slotOpen r' =>
      rw [← Option.some.inj he] at hrest
      exact ih (List.mem_append_left _ hr) hrest
    | closed =>
      rw [owedAfter, if_neg (by simpa using List.ne_nil_of_mem hr)] at he
      exact absurd he (by simp)
    | givenUp => trivial

theorem Settled.handedOver {s : Slot} (h : Settled s) : HandedOver s.log := by
  intro before slotOpen r behind hlog
  have howed := h.owed
  rw [Slot.owed, hlog, List.foldlM_append, Option.bind_eq_bind, Option.bind_eq_some_iff] at howed
  obtain ⟨owed, -, hbehind⟩ := howed
  refine ⟨h.whileOpen (.buffered slotOpen r) (by simp [hlog]), ?_⟩
  exact handedIn_of_owed behind (List.mem_append_right owed (List.mem_singleton_self r)) hbehind

/-! ## 2. A sweep settles the slots it reaches -/

theorem SlotInv.sweep_settled {s : Slot} (h : SlotInv s) (io : SweepIo) :
    Settled (sweepSlot io s) := by
  unfold sweepSlot
  split
  · rename_i hholds
    rw [Bool.and_eq_true] at hholds
    have hwrote := h.wroteBatch hholds.1 io.write.reached
    simp only
    split
    · have hmarker := hwrote.emit (e := .wrote (.marker ReadTailCommittedDetail) s.isOpen
        (s.committedFrame.bytes.take s.committedFrameLen) io.committed.reached) hholds.1 rfl
      exact hmarker.of_log rfl
    · exact hwrote.of_log rfl
  · rename_i hempty
    refine h.settled ?_
    rw [Bool.and_eq_true, decide_eq_true_iff, not_and_or, Bool.not_eq_true] at hempty
    exact hempty.imp id fun hzero => by omega

section Sweeps

variable {ι : Type} [DecidableEq ι] {p p' : Process ι} {t u : ι}

/-- A registered slot that is not the caller's is swept. -/
theorem sweepRegistered_reaches {P R : Slot → Prop} (hsweep : ∀ io s, P s → R (sweepSlot io s))
    (hagain : ∀ s, R s → P s) {caller : ι} (ios : ι → SweepIo) (hother : u ≠ caller)
    (hmem : some u ∈ p.registrySlots) (h : P (p.fragmentSlot u)) :
    R ((sweepRegistered caller ios p).fragmentSlot u) := by
  unfold sweepRegistered
  simp only
  generalize p.fragmentSlot = slots at h
  generalize p.registrySlots = table at hmem
  induction table generalizing slots with
  | nil => exact absurd hmem (by simp)
  | cons entry rest ih =>
    rw [List.foldl_cons]
    by_cases hentry : entry = some u
    · subst hentry
      -- from here on the slot stays swept
      have hstays := @sweepRegistered_slot ι _
        { fragmentSlot := Function.update slots u (sweepSlot (ios u) (slots u)),
          registrySlots := rest } R (fun io s hs => hsweep io s (hagain s hs)) caller ios u
      simp only [if_neg hother]
      exact hstays (by simpa using hsweep (ios u) (slots u) h)
    · refine ih _ ?_ ((List.mem_cons.mp hmem).resolve_left (Ne.symm hentry))
      cases entry with
      | none => exact h
      | some v =>
        have hv : u ≠ v := fun heq => hentry (by rw [heq])
        simp only
        split
        · exact h
        · rwa [Function.update_of_ne hv]

/-- A slot that is not in the table is not touched. -/
theorem sweepRegistered_spares (caller : ι) (ios : ι → SweepIo)
    (hmem : some u ∉ p.registrySlots) :
    (sweepRegistered caller ios p).fragmentSlot u = p.fragmentSlot u := by
  unfold sweepRegistered
  simp only
  generalize p.fragmentSlot = slots
  generalize p.registrySlots = table at hmem
  induction table generalizing slots with
  | nil => rfl
  | cons entry rest ih =>
    rw [List.foldl_cons, ih _ fun hrest => hmem (List.mem_cons_of_mem _ hrest)]
    cases entry with
    | none => rfl
    | some v =>
      have hv : u ≠ v := fun heq => hmem (heq ▸ List.mem_cons_self)
      simp only
      split
      · rfl
      · exact Function.update_of_ne hv ..

omit [DecidableEq ι] in
theorem mem_of_holds {i : Nat} (h : Holds p.registrySlots i u) : some u ∈ p.registrySlots :=
  List.mem_of_getElem? h

omit [DecidableEq ι] in
theorem holds_of_mem (h : some u ∈ p.registrySlots) : ∃ i, Holds p.registrySlots i u :=
  List.mem_iff_getElem?.mp h

/-! ## 3. The shutdown -/

variable (cfg : WriterConfig)

/-- The operation is not an append that its own flush interrupts. -/
def ProcessStep.Uninterrupted (p : Process ι) : ProcessStep ι → Prop
  | .operate t op => op.slotOp.Uninterrupted cfg (p.fragmentSlot t)
  | _ => True

/-- What a slot holds is in the batch of an open fragment, and a thread that is gone has left
nothing. -/
structure SlotsKept (p : Process ι) : Prop where
  inv : ∀ t ∈ p.live, SlotInv (p.fragmentSlot t)
  closed : ∀ t ∈ p.exiting, (p.fragmentSlot t).isOpen = false
  exiting : p.exiting ⊆ p.live
  exited : ∀ s ∈ p.exited, Settled s

theorem slotInv_slot_start : SlotInv ({} : Slot) := slotInv_start

theorem SlotsKept.step (h : SlotsKept p) {a : ProcessStep ι}
    (hsound : a.Uninterrupted cfg p) (hstep : p.step cfg a = some p') : SlotsKept p' := by
  cases step_took hstep with
  | @start t hdead =>
    refine ⟨fun u hu => ?_, fun u hu => ?_, fun u hu => ?_, h.exited⟩
    · by_cases hut : u = t
      · subst hut
        simpa using slotInv_slot_start
      · simp only [Function.update_of_ne hut]
        exact h.inv u (Finset.mem_of_mem_insert_of_ne hu hut)
    · have hut : u ≠ t := fun heq => hdead (heq ▸ h.exiting hu)
      simp only [Function.update_of_ne hut]
      exact h.closed u hu
    · exact Finset.mem_insert_of_mem (h.exiting hu)
  | @operate t op hlive hstays =>
    refine ⟨fun u hu => ?_, fun u hu => ?_, h.exiting, h.exited⟩
    · by_cases hut : u = t
      · subst hut
        simp only [Function.update_self]
        exact (h.inv u hu).step cfg hsound
      · simp only [Function.update_of_ne hut]
        exact h.inv u hu
    · have hut : u ≠ t := fun heq => hstays (heq ▸ hu)
      simp only [Function.update_of_ne hut]
      exact h.closed u hu
  | @call t c rest =>
    have hframe := c.frame t { p with calls := Function.update p.calls t rest }
    refine ⟨?_, ?_, ?_, ?_⟩
    · rw [hframe.live, hframe.fragmentSlot]
      exact h.inv
    · rw [hframe.exiting, hframe.fragmentSlot]
      exact h.closed
    · rw [hframe.exiting, hframe.live]
      exact h.exiting
    · rw [hframe.exited]
      exact h.exited
  | @exit t io hlive =>
    refine ⟨fun u hu => ?_, fun u hu => ?_, Finset.insert_subset hlive h.exiting, h.exited⟩
    · by_cases hut : u = t
      · subst hut
        simp only [Function.update_self]
        exact (h.inv u hu).close cfg false io
      · simp only [Function.update_of_ne hut]
        exact h.inv u hu
    · by_cases hut : u = t
      · subst hut
        simp only [Function.update_self]
        exact close_isOpen cfg false io _
      · simp only [Function.update_of_ne hut]
        exact h.closed u (Finset.mem_of_mem_insert_of_ne hu hut)
  | @reap t hexiting =>
    refine ⟨fun u hu => h.inv u (Finset.mem_of_mem_erase hu),
      fun u hu => h.closed u (Finset.mem_of_mem_erase hu), Finset.erase_subset_erase t h.exiting,
      fun s hs => ?_⟩
    rcases List.mem_cons.mp hs with rfl | hs
    · exact (h.inv t (h.exiting hexiting)).settled (.inl (h.closed t hexiting))
    · exact h.exited s hs
  | @sweep caller ios =>
    refine ⟨fun u hu => ?_, fun u hu => ?_, h.exiting, h.exited⟩
    · exact sweepRegistered_slot (P := SlotInv) (fun io s hs => hs.sweep io) caller ios u
        (h.inv u hu)
    · exact sweepRegistered_slot (P := fun s => s.isOpen = false)
        (fun io s hs => (sweep_isOpen io s).trans hs) caller ios u (h.closed u hu)
  | @becomeChild t hlive =>
    refine ⟨fun u hu => ?_, fun u hu => absurd hu (Finset.notMem_empty u),
      Finset.empty_subset _, fun s hs => absurd hs (by simp)⟩
    rw [Finset.mem_singleton.mp hu]
    simp only [Function.update_self]
    exact (h.inv t hlive).forkDiscard

/-- No append of the run is interrupted by its own flush. -/
def UninterruptedSteps (p : Process ι) (steps : List (ProcessStep ι)) : Prop :=
  GuardedRuns.Meets (Process.step cfg) (fun p a => a.Uninterrupted cfg p) p steps

omit [DecidableEq ι] in
theorem slotsKept_start : SlotsKept ({} : Process ι) where
  inv t ht := absurd ht (Finset.notMem_empty t)
  closed t ht := absurd ht (Finset.notMem_empty t)
  exiting := Finset.Subset.refl _
  exited s hs := absurd hs (by simp)

/-- `flushAllRegisteredSlots`: the slots of the other threads, then the caller's own. -/
def flushAllRegisteredSlots (caller : ι) (ios : ι → SweepIo) (io : CloseIo) :
    List (ProcessStep ι) :=
  [.sweep caller ios, .operate caller (.close false io)]

/-- **The shutdown strands nothing.**  After a run of any threads in any order, never more of them
alive than the table has entries, a shutdown that finds every thread between two operations has
handed over every record that was ever buffered, in the slots that are live and in those of threads
long gone. -/
theorem shutdown_settles {steps : List (ProcessStep ι)} (h : Process.run cfg {} steps = some p)
    (hfew : FewThreads cfg {} steps) (hsound : UninterruptedSteps cfg {} steps)
    (hquiet : ∀ u ∈ p.live, p.calls u = []) {caller : ι} {ios : ι → SweepIo} {io : CloseIo}
    (hdown : Process.run cfg p (flushAllRegisteredSlots caller ios io) = some p') :
    (∀ u ∈ p'.live, HandedOver (p'.fragmentSlot u).log) ∧ ∀ s ∈ p'.exited, HandedOver s.log := by
  have hkept : SlotsKept p :=
    GuardedRuns.invariant_of_meets (fun h hq hs => SlotsKept.step cfg h hq hs) steps
      slotsKept_start hsound h
  obtain ⟨q, hsweep, hrest⟩ := GuardedRuns.run_cons.mp hdown
  obtain ⟨q', hclose, hend⟩ := GuardedRuns.run_cons.mp hrest
  obtain rfl := Option.some.inj hend
  -- the sweep settles every slot but the caller's
  have hswept : ∀ u ∈ p.live, u ≠ caller →
      Settled ((sweepRegistered caller ios p).fragmentSlot u) := by
    intro u hu hother
    by_cases hmem : some u ∈ p.registrySlots
    · exact sweepRegistered_reaches (fun io s (hs : SlotInv s) => hs.sweep_settled io)
        (fun s hs => hs.inv) ios hother hmem (hkept.inv u hu)
    · -- a slot that is not in the table is not open, so it holds nothing
      rw [sweepRegistered_spares caller ios hmem]
      refine (hkept.inv u hu).settled (.inl ?_)
      by_contra hopen
      obtain ⟨i, hi⟩ := registered_of_run cfg h hfew hu (hquiet u hu) (by simpa using hopen)
      exact hmem (mem_of_holds hi)
  cases step_took hsweep with
  | sweep hlive =>
  cases step_took hclose with
  | operate =>
  refine ⟨fun u hu => Settled.handedOver ?_, fun s hs => (hkept.exited s hs).handedOver⟩
  by_cases hother : u = caller
  · subst hother
    simp only [Function.update_self]
    -- the caller's slot is closed, whatever the close met
    have hinv : SlotInv ((sweepRegistered u ios p).fragmentSlot u) :=
      sweepRegistered_slot (P := SlotInv) (fun io s hs => hs.sweep io) u ios u (hkept.inv u hlive)
    exact (hinv.close cfg false io).settled (.inl (close_isOpen cfg false io _))
  · simp only [Function.update_of_ne hother]
    exact hswept u hu hother

/-- A thread has buffered a record when another one shuts the process down. -/
def workerRun : List (ProcessStep Nat) :=
  [.start 7, .start 9, .operate 7 (.append appendDone (str "/f") startRecord), .call 7]

def sweepDone : Nat → SweepIo := fun _ => ⟨done, done⟩

theorem workerRun_uninterrupted : UninterruptedSteps plainConfig {} workerRun := by
  refine ⟨trivial, fun p₁ h₁ => ⟨trivial, fun p₂ h₂ => ⟨?_, fun _ _ => ?_⟩⟩⟩
  case refine_2 => exact ⟨trivial, fun _ _ => trivial⟩
  cases step_took h₁ with
  | start =>
  cases step_took h₂ with
  | start =>
  -- the append is the first of its thread
  intro hopen
  exact absurd hopen (by decide)

/-- The sweep writes out what the worker has buffered. -/
def workerLog : List SlotEvent :=
  [.buffered true startRecord, .wrote .batch true (encodeFrame startRecord) FragmentBatchBufLen]

theorem workerRun_settled : ∃ p p', Process.run plainConfig {} workerRun = some p ∧
    Process.run plainConfig p (flushAllRegisteredSlots 9 sweepDone closeDone) = some p' ∧
    (p'.fragmentSlot 7).log = workerLog ∧
    HandedIn startRecord [.wrote .batch true (encodeFrame startRecord) FragmentBatchBufLen] := by
  have hruns : (Process.run plainConfig {} (workerRun ++
      flushAllRegisteredSlots 9 sweepDone closeDone)).map (fun p =>
      (decide (7 ∈ p.live), (p.fragmentSlot 7).log)) = some (true, workerLog) := by decide +kernel
  have hworker : (Process.run plainConfig {} workerRun).map (fun p =>
      decide (∀ u ∈ p.live, p.calls u = [])) = some true := by decide +kernel
  obtain ⟨p', hp', hend⟩ := Option.map_eq_some_iff.mp hruns
  obtain ⟨p, hp, hdown⟩ := GuardedRuns.run_append.mp hp'
  rw [Process.run, hp, Option.map_some, Option.some.injEq, decide_eq_true_iff] at hworker
  rw [Prod.mk.injEq, decide_eq_true_iff] at hend
  have hfew : FewThreads plainConfig {} workerRun := fewThreads_of_length plainConfig _ (by decide)
  have hover := (shutdown_settles plainConfig hp hfew workerRun_uninterrupted hworker hdown).1 7
    hend.1
  exact ⟨p, p', hp, hdown, hend.2, (hover [] true startRecord _ hend.2).2⟩

/-! ## 4. The child of a fork -/

/-- The slot of a thread that the process does not have, as it was. -/
structure Left (u : ι) (s : Slot) (p : Process ι) : Prop extends ProcessInv p where
  absent : u ∉ p.live
  slot : p.fragmentSlot u = s

theorem Left.step {s : Slot} (h : Left u s p) {a : ProcessStep ι} (hunused : a ≠ .start u)
    (hstep : p.step cfg a = some p') : Left u s p' := by
  have hinv := h.toProcessInv.step cfg hstep
  cases step_took hstep with
  | @start t =>
    have hut : u ≠ t := fun heq => hunused (heq ▸ rfl)
    exact { toProcessInv := hinv,
            absent := fun hu => h.absent (Finset.mem_of_mem_insert_of_ne hu hut),
            slot := (Function.update_of_ne hut ..).trans h.slot }
  | @operate t op hlive =>
    have hut : u ≠ t := fun heq => h.absent (heq ▸ hlive)
    exact { toProcessInv := hinv, absent := h.absent,
            slot := (Function.update_of_ne hut ..).trans h.slot }
  | @call t c rest =>
    have hframe := c.frame t { p with calls := Function.update p.calls t rest }
    exact { toProcessInv := hinv,
            absent := by
              rw [hframe.live]
              exact h.absent
            slot := (congrFun hframe.fragmentSlot u).trans h.slot }
  | @exit t io hlive =>
    have hut : u ≠ t := fun heq => h.absent (heq ▸ hlive)
    exact { toProcessInv := hinv, absent := h.absent,
            slot := (Function.update_of_ne hut ..).trans h.slot }
  | reap =>
    exact { toProcessInv := hinv, absent := fun hu => h.absent (Finset.mem_of_mem_erase hu),
            slot := h.slot }
  | @sweep caller ios =>
    -- the table names live threads only
    have hmem : some u ∉ p.registrySlots := fun hmem =>
      have ⟨i, hi⟩ := holds_of_mem hmem
      h.absent ((h.entry i u).mp hi).1
    exact { toProcessInv := hinv, absent := h.absent,
            slot := (sweepRegistered_spares caller ios hmem).trans h.slot }
  | @becomeChild t hlive =>
    have hut : u ≠ t := fun heq => h.absent (heq ▸ hlive)
    exact { toProcessInv := hinv, absent := by simpa using hut,
            slot := (Function.update_of_ne hut ..).trans h.slot }

/-- **The child leaves its parent's slots alone.**  Whatever the child does from the fork on, its
sweeps included, the copy it has inherited of another thread's slot stays as it was, batch and all,
unless a thread of its own is started in the same storage. -/
theorem child_leaves_alone {steps : List (ProcessStep ι)}
    (h : Process.run cfg p (.becomeChild t :: steps) = some p') (hother : u ≠ t)
    (hunused : ProcessStep.start u ∉ steps) : p'.fragmentSlot u = p.fragmentSlot u := by
  obtain ⟨q, hfork, hrest⟩ := GuardedRuns.run_cons.mp h
  have hleft : Left u (p.fragmentSlot u) q := by
    cases step_took hfork with
    | becomeChild =>
    exact { toProcessInv := processInv_child .., absent := by simpa using hother,
            slot := Function.update_of_ne hother .. }
  have hmeets : GuardedRuns.Meets (Process.step cfg) (fun _ a => a ≠ .start u) q steps :=
    .of_forall q fun a ha _ heq => hunused (heq ▸ ha)
  exact (GuardedRuns.invariant_of_meets (fun h hq hs => Left.step cfg h hq hs) steps hleft hmeets
    hrest).slot

/-- Thread 9 forks, and its child sweeps and exits. -/
def childSteps : List (ProcessStep Nat) := flushAllRegisteredSlots 9 sweepDone closeDone

theorem child_leaves_worker : ∃ p p', Process.run plainConfig {} workerRun = some p ∧
    Process.run plainConfig p (.becomeChild 9 :: childSteps) = some p' ∧
    p'.fragmentSlot 7 = p.fragmentSlot 7 := by
  have hruns : (Process.run plainConfig {} (workerRun ++ .becomeChild 9 :: childSteps)).isSome =
      true := by decide +kernel
  obtain ⟨p', hp'⟩ := Option.isSome_iff_exists.mp hruns
  obtain ⟨p, hp, hchild⟩ := GuardedRuns.run_append.mp hp'
  refine ⟨p, p', hp, hchild, child_leaves_alone plainConfig hchild (by decide) ?_⟩
  simp [childSteps, flushAllRegisteredSlots]

end Sweeps

end IoMon.SlotMachine
