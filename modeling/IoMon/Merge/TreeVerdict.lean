/-
# When the capture of a process tree is complete

The merge does not see processes, images or pipes, it sees records; from these it infers whether
anything outside the tree took part.  This file compares the inference with what happened, for
every run of a process tree.  `Closed` says what happened: every process with a spawn record, and
the root, ended in an image that observes; every peer that was dialled and every channel that was
consumed is the tree's own, or a trusted daemon's; and no shim reported a loss.

  * `Balanced` -- per pid, the starts exceed the execs that landed by one as long as the process
    observes, and by none once it does not;
  * `closes_stream` -- the conditions of the passes on the records of a run, as conditions on the
    run;
  * `complete_iff_closed` -- the merge of a capture that arrived whole says complete exactly when
    the run was closed.

A capture arrives whole when the merge sees the evidence of the run in any order, each piece at
least once and the starts and execs as often as they happened, and nothing is damaged.
-/
import IoMon.Merge.EvidenceSet
import IoMon.Merge.ExecTally
import IoMon.Shim.ProcessTree

namespace IoMon.ProcessTree

open ByteText MonitorRecordKind MonitorObservationKind MonitorCompleteness

/-! ## 1. The history the events list -/

abbrev Event := Origin × ShimEvent

def startOf (e : Event) : Option UInt64 := if e.2.isStart then some e.1.osPid else none

def childOf (e : Event) : Option UInt64 :=
  match e.2 with
  | .spawn _ _ child _ => some child
  | _ => none

def dialOf (e : Event) : Option UInt64 :=
  match e.2 with
  | .ipcConnect _ peer _ _ _ => some peer
  | _ => none

/-- The starts, spawns and connections are listed one by one. -/
structure Listed (root : UInt64) (t : Trace) : Prop where
  started : t.started = t.events.filterMap startOf
  recorded : t.recorded = t.events.filterMap childOf ++ [root]
  dialled : t.dialled = t.events.filterMap dialOf

/-- The events of a piece of history, by themselves. -/
structure Listing (d : Trace) : Prop where
  started : d.started = d.events.filterMap startOf
  recorded : d.recorded = d.events.filterMap childOf
  dialled : d.dialled = d.events.filterMap dialOf

theorem Listed.add {root : UInt64} {t d : Trace} (h : Listed root t) (hd : Listing d) :
    Listed root (d.add t) where
  started := by simp only [Trace.add, List.filterMap_append, h.started, hd.started]
  recorded := by
    simp only [Trace.add, List.filterMap_append, h.recorded, hd.recorded, List.append_assoc]
  dialled := by simp only [Trace.add, List.filterMap_append, h.dialled, hd.dialled]

theorem listing_start (loads : Bool) (o : Origin) : Listing (startTrace loads o) := by
  cases loads <;> exact ⟨rfl, rfl, rfl⟩

theorem listing_spawn (recorded : Bool) (o : Origin) (via : SpawnCall) (path : NimStr)
    (child : UInt64) (result : Int64) :
    Listing (spawnTrace recorded o via path child result) := by
  cases recorded <;> exact ⟨rfl, rfl, rfl⟩

/-- Everything an own call tells is a note or a channel event, unless it dials. -/
theorem own_events {opens : Descriptors} {c : Own} (hok : c.allowed opens = true) (t : FdTables)
    (hdial : ∀ family peer uid sunPath fd, c ≠ .connect family peer uid sunPath fd) :
    ∀ ev ∈ (c.hook opens t).2, isNote ev = true ∨ isContent ev = true := by
  intro ev hev
  cases c with
  | pair fd₀ fd₁ o₀ o₁ =>
    refine .inr ?_
    rcases List.mem_append.mp hev with hev | hev <;>
    · rw [recordLocalFdCreate] at hev
      split at hev
      · exact absurd hev List.not_mem_nil
      · split at hev
        · exact absurd hev List.not_mem_nil
        · rw [List.mem_singleton.mp hev]
          rfl
  | openat dirfd path flags fd o cwd allocated =>
    rw [List.mem_singleton.mp hev]
    exact .inl rfl
  | read fd bytes allocated =>
    by_cases hbytes : 0 < bytes
    · have hout := recordFdRead_outcome (answers opens [] allocated) t fd hbytes
      rw [Own.hook] at hev
      generalize recordFdRead (answers opens [] allocated) t fd bytes = e at hout hev
      cases hout with
      | recorded | noDescriptor | classified | skipped => exact absurd hev List.not_mem_nil
      | named | unresolved | recovered | unnamed =>
        rw [List.mem_singleton.mp hev]
        exact .inl rfl
      | channel =>
        rw [List.mem_singleton.mp hev]
        exact .inr rfl
    · rw [Own.hook, recordFdRead, if_neg hbytes] at hev
      exact absurd hev List.not_mem_nil
  | connect family peer peerUid sunPath fd => exact absurd rfl (hdial _ _ _ _ _)
  | note event =>
    rw [List.mem_singleton.mp hev]
    exact .inl hok
  | create | dup | close | fclose => exact absurd hev List.not_mem_nil

/-- A note or channel event is in none of the lists, and in none of the tallies. -/
theorem other_of_event {ev : ShimEvent} (h : isNote ev = true ∨ isContent ev = true) (o : Origin) :
    startOf (o, ev) = none ∧ childOf (o, ev) = none ∧ dialOf (o, ev) = none ∧
      ev.isAccounting = false := by
  cases ev <;> first | exact ⟨rfl, rfl, rfl, rfl⟩ | simp [isNote, isContent] at h

theorem listing_own {o : Origin} {p : Proc} {c : Own} (hok : c.allowed p.opens = true) :
    Listing (c.trace o p) := by
  by_cases hdial : ∀ family peer uid sunPath fd, c ≠ .connect family peer uid sunPath fd
  · have hother : ∀ e ∈ (c.trace o p).events, startOf e = none ∧ childOf e = none ∧
        dialOf e = none ∧ e.2.isAccounting = false := by
      intro e he
      obtain ⟨ev, hev, rfl⟩ := List.mem_map.mp he
      exact other_of_event (own_events hok p.tables hdial ev hev) o
    have hdials : c.dials = [] := by
      cases c with
      | connect => exact absurd rfl (hdial _ _ _ _ _)
      | _ => rfl
    refine ⟨(List.filterMap_eq_nil_iff.mpr fun e he => (hother e he).1).symm,
      (List.filterMap_eq_nil_iff.mpr fun e he => (hother e he).2.1).symm,
      hdials.trans (List.filterMap_eq_nil_iff.mpr fun e he => (hother e he).2.2.1).symm⟩
  · push Not at hdial
    obtain ⟨family, peer, uid, sunPath, fd, rfl⟩ := hdial
    cases family with
    | none => exact ⟨rfl, rfl, rfl⟩
    | some family => cases family <;> exact ⟨rfl, rfl, rfl⟩

theorem Listed.step {root : UInt64} {s s' : System} {a : Origin × Call} (h : Listed root s.trace)
    (hstep : ProcessTree.step s a = some s') : Listed root s'.trace := by
  obtain ⟨o, call⟩ := a
  obtain ⟨p, hp, hok, rfl⟩ := step_eq.mp hstep
  cases call with
  | own c =>
    rw [take]
    split
    · exact h.add (listing_own hok)
    · exact h
  | fork child singleThreaded =>
    rw [take]
    split
    · exact (h.add (listing_spawn ..)).add (listing_start ..)
    · exact h
  | posixSpawn searches path child named loads objs =>
    exact (h.add (listing_spawn ..)).add (listing_start ..)
  | execve path landing =>
    cases landing with
    | failed errno =>
      rw [take]
      split
      · exact h.add ⟨rfl, rfl, rfl⟩
      · exact h
    | landed loads keeps start =>
      refine Listed.add (h.add ?_) (listing_start ..)
      split <;> exact ⟨rfl, rfl, rfl⟩

theorem listed_launch (root : Origin) (loads : Bool) (objs : Int32 → Option Obj) :
    Listed root.osPid (launch root loads objs).trace :=
  Listed.add ⟨rfl, rfl, rfl⟩ (listing_start ..)

/-! ## 2. The tally of a process -/

def starts (events : List Event) (pid : UInt64) : Nat :=
  events.countP fun e => e.1.osPid == pid && e.2.isStart

def execs (events : List Event) (pid : UInt64) : Nat :=
  events.countP fun e => e.1.osPid == pid && e.2.isExec

def failures (events : List Event) (pid : UInt64) : Nat :=
  events.countP fun e => e.1.osPid == pid && e.2.isExecFailed

/-- The starts of a process and its failed execs are its execs, and one more while it observes. -/
structure Tally (events : List Event) (pid : UInt64) (image : Image) : Prop where
  balance : starts events pid + failures events pid =
    execs events pid + if image = .observing then 1 else 0
  failed : failures events pid ≤ execs events pid

/-- Every event has a process, every child a number of its own, and every process a tally. -/
structure Balanced (s : System) : Prop where
  known : ∀ e ∈ s.trace.events, s.procs e.1.osPid ≠ none
  children : ∀ e ∈ s.trace.events, ∀ child, childOf e = some child →
    child ≠ 0 ∧ child ≠ e.1.osPid
  recorded : ∀ pid ∈ s.trace.recorded, s.procs pid ≠ none
  tally : ∀ {pid p}, s.procs pid = some p → Tally s.trace.events pid p.image

section Tally

variable {events more : List Event} {pid : UInt64} {image : Image}

/-- The accounting events of other processes leave the tally alone. -/
theorem counts_of_other (h : ∀ e ∈ more, e.2.isAccounting = true → e.1.osPid ≠ pid) :
    starts more pid = 0 ∧ execs more pid = 0 ∧ failures more pid = 0 := by
  have hzero : ∀ f : ShimEvent → Bool, (∀ ev, f ev = true → ev.isAccounting = true) →
      more.countP (fun e => e.1.osPid == pid && f e.2) = 0 := by
    intro f hf
    rw [List.countP_eq_zero]
    intro e he hcount
    simp only [Bool.and_eq_true, beq_iff_eq] at hcount
    exact h e he (hf _ hcount.2) hcount.1
  refine ⟨hzero _ fun ev hev => ?_, hzero _ fun ev hev => ?_, hzero _ fun ev hev => ?_⟩ <;>
    simp [ShimEvent.isAccounting, hev]

theorem starts_append : starts (more ++ events) pid = starts more pid + starts events pid :=
  List.countP_append

theorem execs_append : execs (more ++ events) pid = execs more pid + execs events pid :=
  List.countP_append

theorem failures_append :
    failures (more ++ events) pid = failures more pid + failures events pid :=
  List.countP_append

theorem Tally.append_other (h : Tally events pid image)
    (hother : ∀ e ∈ more, e.2.isAccounting = true → e.1.osPid ≠ pid) :
    Tally (more ++ events) pid image := by
  obtain ⟨hs, he, hf⟩ := counts_of_other hother
  have hbalance := h.balance
  have hfailed := h.failed
  refine ⟨?_, ?_⟩
  · rw [starts_append, execs_append, failures_append, hs, he, hf]
    omega
  · rw [execs_append, failures_append, he, hf]
    omega

/-- A process that has just come up. -/
theorem Tally.fresh (hold : ∀ e ∈ events, e.1.osPid ≠ pid)
    (hstarts : starts more pid = if image = .observing then 1 else 0) (hexecs : execs more pid = 0)
    (hfailures : failures more pid = 0) : Tally (more ++ events) pid image := by
  obtain ⟨hs, he, hf⟩ := counts_of_other fun e he _ => hold e he
  refine ⟨?_, ?_⟩
  · rw [starts_append, execs_append, failures_append, hs, he, hf, hstarts, hexecs, hfailures]
    omega
  · rw [failures_append, hfailures, hf]
    omega

end Tally

theorem Trace.add_assoc (a b c : Trace) : (a.add b).add c = a.add (b.add c) := by
  simp only [Trace.add, List.append_assoc]

/-- A step that is about one process. -/
theorem Balanced.update {s : System} (h : Balanced s) {pid : UInt64} {q : Proc} {d : Trace}
    (hknown : ∀ e ∈ d.events, e.1.osPid = pid ∨ s.procs e.1.osPid ≠ none)
    (hchildren : ∀ e ∈ d.events, ∀ child, childOf e = some child →
      child ≠ 0 ∧ child ≠ e.1.osPid)
    (hrecorded : ∀ child ∈ d.recorded, child = pid)
    (haccounting : ∀ e ∈ d.events, e.2.isAccounting = true → e.1.osPid = pid)
    (htally : Tally (d.events ++ s.trace.events) pid q.image) :
    Balanced { procs := Function.update s.procs pid (some q), trace := d.add s.trace } := by
  have hprocs : ∀ pid', pid' = pid ∨ s.procs pid' ≠ none →
      Function.update s.procs pid (some q) pid' ≠ none := by
    intro pid' hpid'
    by_cases heq : pid' = pid
    · rw [heq, Function.update_self]
      simp
    · rw [Function.update_of_ne heq]
      exact hpid'.resolve_left heq
  refine ⟨fun e he => ?_, fun e he => ?_, fun child hchild => ?_, ?_⟩
  · rcases List.mem_append.mp he with he | he
    · exact hprocs _ (hknown e he)
    · exact hprocs _ (.inr (h.known e he))
  · rcases List.mem_append.mp he with he | he
    · exact hchildren e he
    · exact h.children e he
  · rcases List.mem_append.mp hchild with hchild | hchild
    · exact hprocs _ (.inl (hrecorded child hchild))
    · exact hprocs _ (.inr (h.recorded child hchild))
  · intro pid' p hp
    change Function.update s.procs pid (some q) pid' = some p at hp
    by_cases heq : pid' = pid
    · subst heq
      rw [Function.update_self] at hp
      obtain rfl := Option.some.inj hp
      exact htally
    · rw [Function.update_of_ne heq] at hp
      refine (h.tally hp).append_other fun e he ha hpid => heq ?_
      exact hpid.symm.trans (haccounting e he ha)

/-- A step that tells nothing. -/
theorem Balanced.update_silent {s : System} (h : Balanced s) {pid : UInt64} {q : Proc}
    (htally : Tally s.trace.events pid q.image) :
    Balanced { s with procs := Function.update s.procs pid (some q) } :=
  h.update (d := {}) (fun _ he => absurd he List.not_mem_nil)
    (fun _ he => absurd he List.not_mem_nil) (fun _ hc => absurd hc List.not_mem_nil)
    (fun _ he => absurd he List.not_mem_nil) htally

theorem mem_startTrace {loads : Bool} {o : Origin} {e : Event}
    (h : e ∈ (startTrace loads o).events) : e = (o, .processStart) := by
  cases loads
  · exact absurd h List.not_mem_nil
  · exact List.mem_singleton.mp h

theorem mem_spawnTrace {recorded : Bool} {o : Origin} {via : SpawnCall} {path : NimStr}
    {child : UInt64} {result : Int64} {e : Event}
    (h : e ∈ (spawnTrace recorded o via path child result).events) :
    e = (o, .spawn via path child result) := by
  cases recorded
  · exact absurd h List.not_mem_nil
  · exact List.mem_singleton.mp h

/-- A start is the one event a fresh image tells. -/
theorem counts_startTrace (loads : Bool) (o : Origin) :
    starts (startTrace loads o).events o.osPid = (if loads = true then 1 else 0) ∧
      execs (startTrace loads o).events o.osPid = 0 ∧
      failures (startTrace loads o).events o.osPid = 0 := by
  cases loads <;>
    simp [startTrace, starts, execs, failures, ShimEvent.isStart, ShimEvent.isExec,
      ShimEvent.isExecFailed]

theorem counts_spawnTrace (recorded : Bool) (o : Origin) (via : SpawnCall) (path : NimStr)
    (child : UInt64) (result : Int64) (pid : UInt64) :
    starts (spawnTrace recorded o via path child result).events pid = 0 ∧
      execs (spawnTrace recorded o via path child result).events pid = 0 ∧
      failures (spawnTrace recorded o via path child result).events pid = 0 := by
  refine counts_of_other fun e he ha => ?_
  rw [mem_spawnTrace he] at ha
  cases ha

/-- A new process, with or without a spawn record and a start. -/
theorem Balanced.child {s : System} (h : Balanced s) {o child : Origin} {q : Proc}
    (hcaller : s.procs o.osPid ≠ none) (hzero : child.osPid ≠ 0)
    (hfree : s.procs child.osPid = none) (recorded loads : Bool)
    (himage : q.image = .observing ↔ loads = true) (via : SpawnCall) (path : NimStr)
    (result : Int64) :
    Balanced
      { procs := Function.update s.procs child.osPid (some q)
        trace := (startTrace loads child).add
          ((spawnTrace recorded o via path child.osPid result).add s.trace) } := by
  have hne : child.osPid ≠ o.osPid := fun heq => hcaller (heq ▸ hfree)
  have hold : ∀ e ∈ s.trace.events, e.1.osPid ≠ child.osPid :=
    fun e he heq => h.known e he (heq ▸ hfree)
  have hstart : (if q.image = .observing then 1 else 0) = if loads = true then 1 else 0 := by
    simp only [himage]
  obtain ⟨hs, he, hf⟩ := counts_startTrace loads child
  obtain ⟨hs', he', hf'⟩ := counts_spawnTrace recorded o via path child.osPid result child.osPid
  rw [← Trace.add_assoc]
  refine h.update (fun e he => ?_) (fun e he c hc => ?_) (fun c hc => ?_) (fun e he ha => ?_)
    (Tally.fresh hold ?_ ?_ ?_)
  · rcases List.mem_append.mp he with he | he
    · exact .inl (by rw [mem_startTrace he])
    · exact .inr (by rw [mem_spawnTrace he]; exact hcaller)
  · rcases List.mem_append.mp he with he | he
    · rw [mem_startTrace he] at hc
      cases hc
    · rw [mem_spawnTrace he] at hc ⊢
      cases hc
      exact ⟨hzero, hne⟩
  · rcases List.mem_append.mp hc with hc | hc
    · cases loads <;> exact absurd hc List.not_mem_nil
    · cases recorded
      · exact absurd hc List.not_mem_nil
      · exact List.mem_singleton.mp hc
  · rcases List.mem_append.mp he with he | he
    · rw [mem_startTrace he]
    · rw [mem_spawnTrace he] at ha
      cases ha
  · rw [Trace.add, starts_append, hs, hs', hstart, Nat.add_zero]
  · rw [Trace.add, execs_append, he, he']
  · rw [Trace.add, failures_append, hf, hf']

theorem freshProc_observing (loads : Bool) (objs : Int32 → Option Obj) :
    (freshProc loads objs).image = .observing ↔ loads = true := by
  cases loads <;> simp [freshProc]

theorem balanced_launch (root : Origin) (loads : Bool) (objs : Int32 → Option Obj) :
    Balanced (launch root loads objs) := by
  have hroot : (launch root loads objs).procs root.osPid = some (freshProc loads objs) := if_pos rfl
  have hevents : (launch root loads objs).trace.events = (startTrace loads root).events :=
    List.append_nil _
  refine ⟨fun e he => ?_, fun e he child hchild => ?_, fun pid hpid => ?_, fun {pid p} hp => ?_⟩
  · rw [hevents] at he
    rw [mem_startTrace he, hroot]
    simp
  · rw [hevents] at he
    rw [mem_startTrace he] at hchild
    cases hchild
  · have hmem : pid = root.osPid := by
      rcases List.mem_append.mp hpid with hpid | hpid
      · cases loads <;> exact absurd hpid List.not_mem_nil
      · exact List.mem_singleton.mp hpid
    rw [hmem, hroot]
    simp
  · obtain ⟨rfl, hfresh⟩ := Option.ite_none_right_eq_some.mp hp
    obtain rfl := Option.some.inj hfresh
    obtain ⟨hs, he, hf⟩ := counts_startTrace loads root
    change Tally ((startTrace loads root).events ++ []) root.osPid (freshProc loads objs).image
    refine Tally.fresh (fun _ he => ?_) ?_ he hf
    · exact absurd he List.not_mem_nil
    · simp only [hs, freshProc_observing]

/-- What an exec adds to the tally of its process. -/
theorem Tally.exec {events : List Event} {p : Proc} {o : Origin} (h : Tally events o.osPid p.image)
    (path : NimStr) {q : Proc} {loads : Bool} (himage : q.image = .observing ↔ loads = true)
    (start : Origin) (hstart : start.osPid = o.osPid) :
    Tally (((startTrace loads start).add
      (if p.image = .observing then execTrace o path else {})).events ++ events) o.osPid
      q.image := by
  obtain ⟨hs, he, hf⟩ := counts_startTrace loads start
  rw [hstart] at hs he hf
  have hbalance := h.balance
  have hfailed := h.failed
  have hexec : starts (if p.image = .observing then execTrace o path else {}).events o.osPid = 0 ∧
      execs (if p.image = .observing then execTrace o path else {}).events o.osPid =
        (if p.image = .observing then 1 else 0) ∧
      failures (if p.image = .observing then execTrace o path else {}).events o.osPid = 0 := by
    by_cases hobserving : p.image = .observing <;>
      simp [hobserving, execTrace, starts, execs, failures, ShimEvent.isStart, ShimEvent.isExec,
        ShimEvent.isExecFailed]
  obtain ⟨hs', he', hf'⟩ := hexec
  refine ⟨?_, ?_⟩
  · simp only [Trace.add, starts_append, execs_append, failures_append, hs, hs', he, he', hf, hf',
      himage]
    omega
  · simp only [Trace.add, execs_append, failures_append, he, he', hf, hf']
    omega

/-- **One step of the tree keeps the tallies.** -/
theorem Balanced.step {s s' : System} {a : Origin × Call} (h : Balanced s)
    (hstep : ProcessTree.step s a = some s') : Balanced s' := by
  obtain ⟨o, call⟩ := a
  obtain ⟨p, hp, hok, rfl⟩ := step_eq.mp hstep
  have hcaller : s.procs o.osPid ≠ none := by
    rw [hp]
    simp
  cases call with
  | own c =>
    have hother : ∀ e ∈ (c.trace o p).events, childOf e = none ∧ e.2.isAccounting = false := by
      intro e he
      obtain ⟨ev, hev, rfl⟩ := List.mem_map.mp he
      by_cases hdial : ∀ family peer uid sunPath fd, c ≠ .connect family peer uid sunPath fd
      · have hown := own_events hok p.tables hdial ev hev
        obtain ⟨-, hchild, -, haccounting⟩ := other_of_event hown o
        exact ⟨hchild, haccounting⟩
      · push Not at hdial
        obtain ⟨family, peer, uid, sunPath, fd, rfl⟩ := hdial
        obtain ⟨_, _, _, _, _, rfl⟩ := recordIpcConnect_event hev
        exact ⟨rfl, rfl⟩
    by_cases hobserving : p.image = .observing
    · rw [take, if_pos hobserving]
      refine h.update (fun e he => ?_) (fun e he c hc => ?_) (fun c hc => ?_) (fun e he ha => ?_)
        ((h.tally hp).append_other fun e he ha => ?_)
      · obtain ⟨ev, -, rfl⟩ := List.mem_map.mp he
        exact .inl rfl
      · rw [(hother e he).1] at hc
        cases hc
      · exact absurd hc List.not_mem_nil
      · rw [(hother e he).2] at ha
        cases ha
      · rw [(hother e he).2] at ha
        cases ha
    · have htally := h.tally hp
      rw [take, if_neg hobserving]
      exact h.update_silent htally
  | fork child singleThreaded =>
    simp only [Call.allowed, Bool.and_eq_true, bne_iff_ne, Option.isNone_iff_eq_none] at hok
    by_cases hobserving : p.image = .observing
    · rw [take, if_pos hobserving]
      refine h.child hcaller hok.1 hok.2 true singleThreaded ?_ .fork [] _
      cases singleThreaded <;> simp
    · rw [take, if_neg hobserving]
      exact h.child hcaller hok.1 hok.2 false false (by simp [hobserving]) .fork [] 0
  | posixSpawn searches path child named loads objs =>
    simp only [Call.allowed, Bool.and_eq_true, bne_iff_ne, Option.isNone_iff_eq_none] at hok
    exact h.child hcaller hok.1 hok.2 _ loads (freshProc_observing ..) _ path 0
  | execve path landing =>
    have htally : Tally s.trace.events o.osPid p.image := h.tally hp
    cases landing with
    | failed errno =>
      rw [take]
      split
      · have hself : Function.update s.procs o.osPid (some p) = s.procs := by
          rw [← hp]
          exact Function.update_eq_self ..
        rw [← hself]
        refine h.update (d := execFailedTrace o path errno) ?_ ?_
          (fun _ hc => absurd hc List.not_mem_nil) ?_ ?_
        · intro e he
          rcases List.mem_pair.mp he with rfl | rfl <;> exact .inl rfl
        · intro e he child hchild
          rcases List.mem_pair.mp he with rfl | rfl <;> cases hchild
        · intro e he _
          rcases List.mem_pair.mp he with rfl | rfl <;> rfl
        · obtain ⟨hbalance, hfailed⟩ := htally
          have hcounts : starts (execFailedTrace o path errno).events o.osPid = 0 ∧
              execs (execFailedTrace o path errno).events o.osPid = 1 ∧
              failures (execFailedTrace o path errno).events o.osPid = 1 := by
            simp [execFailedTrace, starts, execs, failures, ShimEvent.isStart, ShimEvent.isExec,
              ShimEvent.isExecFailed]
          obtain ⟨hs, he, hf⟩ := hcounts
          refine ⟨?_, ?_⟩
          · rw [starts_append, execs_append, failures_append, hs, he, hf]
            omega
          · rw [execs_append, failures_append, he, hf]
            omega
      · exact h
    | landed loads keeps start =>
      rw [take, ← Trace.add_assoc]
      have hevents : ∀ e ∈ ((startTrace loads { start with osPid := o.osPid }).add
          (if p.image = .observing then execTrace o path else {})).events,
          e = ({ start with osPid := o.osPid }, .processStart) ∨ e = (o, .exec path) := by
        intro e he
        rcases List.mem_append.mp he with he | he
        · exact .inl (mem_startTrace he)
        · split at he
          · exact .inr (List.mem_singleton.mp he)
          · exact absurd he List.not_mem_nil
      refine h.update (fun e he => ?_) (fun e he child hchild => ?_) (fun c hc => ?_)
        (fun e he _ => ?_)
        (htally.exec path (freshProc_observing ..) { start with osPid := o.osPid } rfl)
      · rcases hevents e he with rfl | rfl <;> exact .inl rfl
      · rcases hevents e he with rfl | rfl <;> cases hchild
      · rcases List.mem_append.mp hc with hc | hc
        · cases loads <;> exact absurd hc List.not_mem_nil
        · split at hc <;> exact absurd hc List.not_mem_nil
      · rcases hevents e he with rfl | rfl <;> rfl

/-! ## 3. The records of a run -/

section Tokens

variable (run : RunId)

/-- A token that begins otherwise than the key. -/
theorem tokenStartsWith_append {needle lit : NimStr} (rest : NimStr)
    (h : needle.isPrefixOf lit = false) (h' : lit.isPrefixOf needle = false) :
    tokenStartsWith needle (lit ++ rest) = false := by
  rw [tokenStartsWith, Bool.and_eq_false_iff]
  refine .inr ?_
  by_contra hprefix
  rw [Bool.not_eq_false, List.isPrefixOf_iff_prefix] at hprefix
  rcases List.prefix_or_prefix_of_prefix hprefix (List.prefix_append lit rest) with hp | hp
  · rw [List.isPrefixOf_iff_prefix.mpr hp] at h
    cases h
  · rw [List.isPrefixOf_iff_prefix.mpr hp] at h'
    cases h'

theorem isSpace_of_isDigit {c : UInt8} (h : isDigit c = true) : isSpace c = false := by
  by_contra hspace
  rw [Bool.not_eq_false] at hspace
  simp only [isSpace, Bool.or_eq_true, beq_iff_eq] at hspace
  rcases hspace with ((((rfl | rfl) | rfl) | rfl) | rfl) | rfl <;> exact absurd h (by decide)

/-- A number behind another key. -/
theorem matchingTokens_number {lit key : NimStr} (n : UInt64)
    (hlit : ∀ c ∈ lit, isSpace c = false) (hne : lit ≠ [])
    (h : (key ++ str "=").isPrefixOf lit = false) (h' : lit.isPrefixOf (key ++ str "=") = false) :
    matchingTokens (lit ++ decimal n) key = [] := by
  have hspace : ∀ c ∈ lit ++ decimal n, isSpace c = false := by
    intro c hc
    rcases List.mem_append.mp hc with hc | hc
    · exact hlit c hc
    · exact isSpace_of_isDigit (decimalDigits_isDigit 20 n.toNat c hc)
  rw [matchingTokens_eq_filter, tokens_of_noSpace hspace (by simp [hne]), List.filter_singleton,
    tokenStartsWith_append _ h h']
  rfl

/-- The stamp is not taken for another key. -/
theorem matchingTokens_stamped {r : MonitorRecord} {key : NimStr}
    (hfree : matchingTokens r.detail RunIdToken = [])
    (h : (key ++ str "=").isPrefixOf (str "run=") = false)
    (h' : (str "run=").isPrefixOf (key ++ str "=") = false) :
    matchingTokens (stampRunId run.text r).detail key = matchingTokens r.detail key := by
  by_cases hrun : run.text = []
  · rw [stampRunId, if_pos (by simp [hrun])]
  · rw [matchingTokens_stamp_append (by rw [detailToken, hfree]) hrun,
      matchingTokens_stampToken run hrun, tokenStartsWith_append _ h h', if_neg (by simp),
      List.append_nil]

/-- The peer at the end of a detail is no other key's. -/
theorem matchingTokens_peer (base : NimStr) (peer : UInt64) {key : NimStr}
    (h : (key ++ str "=").isPrefixOf (str "peer=") = false)
    (h' : (str "peer=").isPrefixOf (key ++ str "=") = false) :
    matchingTokens (base ++ if peer = 0 then [] else str " peer=" ++ decimal peer) key =
      matchingTokens base key := by
  by_cases hpeer : peer = 0
  · rw [if_pos hpeer, List.append_nil]
  · have hspace : str " peer=" = 32 :: str "peer=" := by decide
    have hnone : matchingTokens (str "peer=" ++ decimal peer) key = [] :=
      matchingTokens_number peer (by decide +kernel) (by decide) h h'
    rw [if_neg hpeer, hspace, List.cons_append, matchingTokens_append_space (by decide), hnone,
      List.append_nil]

/-- The record of a channel event. -/
def channelRecord (o : Origin) (chan role path : NimStr) (fd : UInt32) (peer : UInt64) :
    MonitorRecord :=
  { baseRecord o mrExternalContent moExternalContent with
    path := path, flags := fd, childOsPid := peer
    detail := str "chan=" ++ chan ++ str " role=" ++ role ++
      (if peer = 0 then [] else str " peer=" ++ decimal peer) }

/-- The two shapes of channel event this shim has. -/
structure ChannelTokens (chan role : NimStr) (r : MonitorRecord) : Prop where
  chan : detailToken r.detail ChanToken = chan
  role : detailToken r.detail RoleToken = role
  peerStart : matchingTokens r.detail PeerStartTimeToken = []

theorem channelTokens (o : Origin) {chan role : NimStr} (path : NimStr) (fd : UInt32)
    (peer : UInt64) (hshape : (chan = str "localfd" ∧ role = str "create") ∨
      (chan = str "opaque" ∧ role = str "read")) :
    ChannelTokens chan role (stampRunId run.text (channelRecord o chan role path fd peer)) := by
  have hbase : ∀ {key : NimStr}, (key ++ str "=").isPrefixOf (str "peer=") = false →
      (str "peer=").isPrefixOf (key ++ str "=") = false →
      matchingTokens (channelRecord o chan role path fd peer).detail key =
        matchingTokens (str "chan=" ++ chan ++ str " role=" ++ role) key :=
    fun h h' => matchingTokens_peer _ peer h h'
  have hrun : matchingTokens (channelRecord o chan role path fd peer).detail RunIdToken = [] := by
    rw [hbase (by decide) (by decide)]
    rcases hshape with ⟨rfl, rfl⟩ | ⟨rfl, rfl⟩ <;> decide
  have hkey : ∀ {key : NimStr}, (key ++ str "=").isPrefixOf (str "peer=") = false →
      (str "peer=").isPrefixOf (key ++ str "=") = false →
      (key ++ str "=").isPrefixOf (str "run=") = false →
      (str "run=").isPrefixOf (key ++ str "=") = false →
      matchingTokens (stampRunId run.text (channelRecord o chan role path fd peer)).detail key =
        matchingTokens (str "chan=" ++ chan ++ str " role=" ++ role) key :=
    fun h h' hr hr' => (matchingTokens_stamped run hrun hr hr').trans (hbase h h')
  refine ⟨?_, ?_, ?_⟩
  · rw [detailToken, hkey (by decide) (by decide) (by decide) (by decide)]
    rcases hshape with ⟨rfl, rfl⟩ | ⟨rfl, rfl⟩ <;> decide
  · rw [detailToken, hkey (by decide) (by decide) (by decide) (by decide)]
    rcases hshape with ⟨rfl, rfl⟩ | ⟨rfl, rfl⟩ <;> decide
  · rw [hkey (by decide) (by decide) (by decide) (by decide)]
    rcases hshape with ⟨rfl, rfl⟩ | ⟨rfl, rfl⟩ <;> decide

/-- The record of a connection. -/
def connectRecord (o : Origin) (family : SocketFamily) (peer : UInt64) (uid : Option UInt64)
    (endpoint : NimStr) (fd : Int64) : MonitorRecord :=
  { baseRecord o mrIpcConnect moIpcConnect with
    childOsPid := peer, result := fd, path := endpoint
    detail := str "connect " ++ family.name ++
      (if peer = 0 then str " peer=unknown" else str " peer=" ++ decimal peer) ++
      uid.elim [] fun uid => str " peeruid=" ++ decimal uid }

/-- Linux leaves the start time of a peer out. -/
theorem matchingTokens_connect (o : Origin) (family : SocketFamily) (peer : UInt64)
    (uid : Option UInt64) (endpoint : NimStr) (fd : Int64) :
    matchingTokens (stampRunId run.text (connectRecord o family peer uid endpoint fd)).detail
      PeerStartTimeToken = [] := by
  have hfamily : ∀ key, matchingTokens (str "connect " ++ family.name) key = [] := by
    intro key
    refine matchingTokens_of_noEq ?_
    cases family <;> decide
  have hpeer : ∀ {key : NimStr}, (key ++ str "=").isPrefixOf (str "peer=") = false →
      (str "peer=").isPrefixOf (key ++ str "=") = false →
      matchingTokens (str "peer=unknown") key = [] →
      matchingTokens (str "connect " ++ family.name ++
        (if peer = 0 then str " peer=unknown" else str " peer=" ++ decimal peer)) key = [] := by
    intro key h h' hunknown
    have hsplit : (if peer = 0 then str " peer=unknown" else str " peer=" ++ decimal peer) =
        32 :: (if peer = 0 then str "peer=unknown" else str "peer=" ++ decimal peer) := by
      have h₀ : str " peer=unknown" = 32 :: str "peer=unknown" := by decide
      have h₁ : str " peer=" = 32 :: str "peer=" := by decide
      split
      · exact h₀
      · rw [h₁, List.cons_append]
    rw [hsplit, matchingTokens_append_space (by decide), hfamily, List.nil_append]
    split
    · exact hunknown
    · exact matchingTokens_number peer (by decide +kernel) (by decide) h h'
  have hdetail : ∀ {key : NimStr}, (key ++ str "=").isPrefixOf (str "peer=") = false →
      (str "peer=").isPrefixOf (key ++ str "=") = false →
      matchingTokens (str "peer=unknown") key = [] →
      (key ++ str "=").isPrefixOf (str "peeruid=") = false →
      (str "peeruid=").isPrefixOf (key ++ str "=") = false →
      matchingTokens (connectRecord o family peer uid endpoint fd).detail key = [] := by
    intro key h h' hunknown hu hu'
    cases uid with
    | none =>
      rw [connectRecord, Option.elim_none, List.append_nil]
      exact hpeer h h' hunknown
    | some uid =>
      have hspace : str " peeruid=" = 32 :: str "peeruid=" := by decide
      rw [connectRecord, Option.elim_some, hspace, List.cons_append,
        matchingTokens_append_space (by decide), hpeer h h' hunknown, List.nil_append]
      exact matchingTokens_number uid (by decide +kernel) (by decide) hu hu'
  rw [matchingTokens_stamped run
    (hdetail (by decide) (by decide) (by decide) (by decide) (by decide)) (by decide) (by decide)]
  exact hdetail (by decide) (by decide) (by decide) (by decide) (by decide)

end Tokens

/-- The record of a start. -/
def startRecord (o : Origin) : MonitorRecord :=
  { baseRecord o mrProcessStart moProcessStart with detail := str "linux-preload-hooks" }

/-- The record of a spawn. -/
def spawnRecord (o : Origin) (via : SpawnCall) (path : NimStr) (child : UInt64) (result : Int64) :
    MonitorRecord :=
  { baseRecord o mrProcessSpawn moExecute with
    childOsPid := child, result := result, path := path, detail := via.detail }

/-- **The evidence an event leaves.** -/
inductive EvidenceOf (o : Origin) : ShimEvent → MonitorRecord → Prop
  | start : EvidenceOf o .processStart (startRecord o)
  | spawn (via path child result) :
      EvidenceOf o (.spawn via path child result) (spawnRecord o via path child result)
  | connect (family peer uid endpoint fd) :
      EvidenceOf o (.ipcConnect family peer uid endpoint fd)
        (connectRecord o family peer uid endpoint fd)
  | channel (chan role path fd peer) :
      EvidenceOf o (.externalContent chan role path fd peer)
        (channelRecord o chan role path fd peer)
  | exec {ev : ShimEvent} {r : MonitorRecord} (h : r ∈ ev.records o) (hk : r.kind = mrProcessExec) :
      EvidenceOf o ev r

theorem connectRecord_eq (o : Origin) (family : SocketFamily) (peer : UInt64)
    (uid : Option UInt64) (endpoint : NimStr) (fd : Int64) :
    ShimEvent.records o (.ipcConnect family peer uid endpoint fd) =
      [connectRecord o family peer uid endpoint fd] := by
  cases uid <;> rfl

theorem evidenceOf {o : Origin} {ev : ShimEvent} {r : MonitorRecord} (h : r ∈ ev.records o)
    (he : isEvidence r = true) : EvidenceOf o ev r := by
  cases ev with
  | processStart => rw [List.mem_singleton.mp h]; exact .start
  | spawn via path child result => rw [List.mem_singleton.mp h]; exact .spawn ..
  | ipcConnect family peer uid endpoint fd =>
    rw [connectRecord_eq] at h
    rw [List.mem_singleton.mp h]
    exact .connect ..
  | externalContent chan role path fd peer =>
    rw [List.mem_singleton.mp h]
    exact .channel ..
  | exec path => exact .exec h (by rw [List.mem_singleton.mp h]; rfl)
  | execFailed path errno => exact .exec h (by rw [List.mem_singleton.mp h]; rfl)
  | fopen path mode =>
    rcases recordFopen_kind h with hk | hk <;> rw [isEvidence, hk] at he <;> cases he
  | nonFile input path =>
    rw [List.mem_singleton.mp h] at he
    cases input <;> cases he
  | _ =>
    rw [List.mem_singleton.mp h] at he
    cases he

@[simp] theorem stampRunId_path (run : NimStr) (r : MonitorRecord) :
    (stampRunId run r).path = r.path := by
  unfold stampRunId; split <;> rfl

@[simp] theorem stampRunId_childOsPid (run : NimStr) (r : MonitorRecord) :
    (stampRunId run r).childOsPid = r.childOsPid := by
  unfold stampRunId; split <;> rfl

theorem isEvidence_stamp (run : NimStr) (r : MonitorRecord) :
    isEvidence (stampRunId run r) = isEvidence r := by
  rw [isEvidence, isEvidence, stampRunId_kind]

/-- The evidence of a stream. -/
theorem mem_stream_evidence {run : RunId} {events : List Event} {r : MonitorRecord}
    (he : isEvidence r = true) : r ∈ wholeStream run events ↔
      ∃ e ∈ events, ∃ r₀ ∈ e.2.records e.1, EvidenceOf e.1 e.2 r₀ ∧
        stampRunId run.text r₀ = r := by
  rw [mem_wholeStream]
  constructor
  · rintro ⟨e, hmem, r₀, hr₀, rfl⟩
    rw [isEvidence_stamp] at he
    exact ⟨e, hmem, r₀, hr₀, evidenceOf hr₀ he, rfl⟩
  · rintro ⟨e, hmem, r₀, hr₀, -, rfl⟩
    exact ⟨e, hmem, r₀, hr₀, rfl⟩

/-! ## 4. The conditions of the passes on a stream -/

section Stream

variable (run : RunId) (events : List Event)

/-- **Who is monitored**: the processes that ever started the shim. -/
theorem childIsMonitored_stream (pid : UInt64) :
    childIsMonitored pid [] (processStartIdentities (wholeStream run events)) = true ↔
      pid ∈ events.filterMap startOf := by
  rw [childIsMonitored_iff, List.mem_filterMap]
  constructor
  · rintro ⟨r, hr, hk, -, hpid, -⟩
    obtain ⟨e, he, r₀, hr₀, hev, rfl⟩ :=
      (mem_stream_evidence (isEvidence_of_kind hk (by simp))).mp hr
    rw [stampRunId_kind] at hk
    rw [stampRunId_osPid] at hpid
    obtain ⟨o, ev⟩ := e
    cases hev with
    | start =>
      subst hpid
      exact ⟨_, he, rfl⟩
    | spawn => cases hk
    | connect => cases hk
    | channel => cases hk
    | exec _ hexec => cases hk.symm.trans hexec
  · rintro ⟨⟨o, ev⟩, he, hstart⟩
    cases ev <;> simp only [startOf, ShimEvent.isStart, if_true, Bool.false_eq_true, if_false,
      reduceCtorEq, Option.some.injEq] at hstart
    refine ⟨stampRunId run.text (startRecord o), mem_wholeStream.mpr
      ⟨_, he, _, List.mem_singleton.mpr rfl, rfl⟩, by simp [startRecord, baseRecord], ?_,
      by simpa [startRecord, baseRecord] using hstart, fun h => absurd rfl h⟩
    have hdetail : (61 : UInt8) ∉ (startRecord o).detail := by
      show (61 : UInt8) ∉ str "linux-preload-hooks"
      decide
    exact noDuplicate_stamp hdetail

/-- A key that is not there. -/
theorem tokens_absent {d key : NimStr} (h : matchingTokens d key = []) :
    detailTokenDuplicate d key = false ∧ trustedDetailToken d key = [] ∧
      detailToken d key = [] := by
  have hdup : detailTokenDuplicate d key = false := by simp [detailTokenDuplicate, h]
  have htoken : detailToken d key = [] := by rw [detailToken, h]
  exact ⟨hdup, by rw [trustedDetailToken, hdup, if_neg (by simp), htoken], htoken⟩

/-- **The spawn records** are those of the children. -/
theorem spawn_stream (hchildren : ∀ e ∈ events, ∀ child, childOf e = some child →
      child ≠ 0 ∧ child ≠ e.1.osPid) {Q : MonitorRecord → Prop} {P : UInt64 → Prop}
    (hQ : ∀ o via path child result,
      Q (stampRunId run.text (spawnRecord o via path child result)) ↔ P child) :
    (∀ r ∈ wholeStream run events, namesChild r = true → Q r) ↔
      ∀ child ∈ events.filterMap childOf, P child := by
  constructor
  · intro h child hchild
    obtain ⟨⟨o, ev⟩, he, hof⟩ := List.mem_filterMap.mp hchild
    obtain ⟨hzero, hself⟩ := hchildren _ he child hof
    cases ev with
    | spawn via path _ result =>
      cases hof
      refine (hQ o via path child result).mp (h _
        (mem_wholeStream.mpr ⟨_, he, _, List.mem_singleton.mpr rfl, rfl⟩) ?_)
      simp [namesChild, spawnRecord, baseRecord, hzero, hself]
    | _ => cases hof
  · intro h r hr hnames
    obtain ⟨⟨o, ev⟩, he, r₀, hr₀, hev, rfl⟩ :=
      (mem_stream_evidence (namesChild_isEvidence hnames)).mp hr
    have hk : r₀.kind = mrProcessSpawn := by
      simp only [namesChild, Bool.and_eq_true, beq_iff_eq, stampRunId_kind] at hnames
      exact hnames.1.1
    cases hev with
    | spawn via path child result =>
      exact (hQ o via path child result).mpr (h child (List.mem_filterMap.mpr ⟨_, he, rfl⟩))
    | start => cases hk
    | connect => cases hk
    | channel => cases hk
    | exec _ hexec => cases hk.symm.trans hexec

/-- Each of them names its child, and no start time of it. -/
theorem spawnAccounted_stream (o : Origin) (via : SpawnCall) (path : NimStr) (child : UInt64)
    (result : Int64) : spawnAccounted (processStartIdentities (wholeStream run events))
      (stampRunId run.text (spawnRecord o via path child result)) = true ↔
        child ∈ events.filterMap startOf := by
  have hdetail : (61 : UInt8) ∉ (spawnRecord o via path child result).detail := by
    show (61 : UInt8) ∉ via.detail
    cases via <;> decide
  have hnone : matchingTokens (stampRunId run.text (spawnRecord o via path child result)).detail
      ChildStartTimeToken = [] :=
    (matchingTokens_stamped run (matchingTokens_of_noEq hdetail) (by decide) (by decide)).trans
      (matchingTokens_of_noEq hdetail)
  obtain ⟨hdup, htrusted, -⟩ := tokens_absent hnone
  rw [spawnAccounted, hdup, htrusted, stampRunId_childOsPid]
  exact childIsMonitored_stream run events child

/-- **The connections**: each names its peer, and no start time of it. -/
theorem peers_stream (trusted : List UInt64) :
    (∀ r ∈ wholeStream run events, r.kind = mrIpcConnect →
      peerAccounted (processStartIdentities (wholeStream run events)) trusted r = true) ↔
      ∀ peer ∈ events.filterMap dialOf, peer ≠ 0 ∧
        (peer ∈ events.filterMap startOf ∨ peer ∈ trusted) := by
  have hrecord : ∀ o family peer uid endpoint fd,
      peerAccounted (processStartIdentities (wholeStream run events)) trusted
          (stampRunId run.text (connectRecord o family peer uid endpoint fd)) = true ↔
        peer ≠ 0 ∧ (peer ∈ events.filterMap startOf ∨ peer ∈ trusted) := by
    intro o family peer uid endpoint fd
    obtain ⟨hdup, htrusted, -⟩ := tokens_absent
      (matchingTokens_connect run o family peer uid endpoint fd)
    rw [peerAccounted, hdup, htrusted, stampRunId_childOsPid, Bool.and_eq_true, Bool.and_eq_true,
      Bool.or_eq_true, List.contains_iff_mem, bne_iff_ne]
    have hmonitored : childIsMonitored (connectRecord o family peer uid endpoint fd).childOsPid []
        (processStartIdentities (wholeStream run events)) = true ↔
          peer ∈ events.filterMap startOf := childIsMonitored_stream run events peer
    rw [hmonitored]
    simp [connectRecord]
  constructor
  · intro h peer hpeer
    obtain ⟨⟨o, ev⟩, he, hof⟩ := List.mem_filterMap.mp hpeer
    cases ev with
    | ipcConnect family _ uid endpoint fd =>
      cases hof
      have hmem : stampRunId run.text (connectRecord o family peer uid endpoint fd) ∈
          wholeStream run events := by
        refine mem_wholeStream.mpr ⟨_, he, _, ?_, rfl⟩
        rw [connectRecord_eq]
        exact List.mem_singleton.mpr rfl
      exact (hrecord ..).mp (h _ hmem (by simp [connectRecord, baseRecord]))
    | _ => cases hof
  · intro h r hr hk
    obtain ⟨⟨o, ev⟩, he, r₀, hr₀, hev, rfl⟩ :=
      (mem_stream_evidence (isEvidence_of_kind hk (by simp))).mp hr
    rw [stampRunId_kind] at hk
    cases hev with
    | connect family peer uid endpoint fd =>
      exact (hrecord ..).mpr (h peer (List.mem_filterMap.mpr ⟨_, he, rfl⟩))
    | start => cases hk
    | spawn => cases hk
    | channel => cases hk
    | exec _ hexec => cases hk.symm.trans hexec

/-- **The key of a channel is its inode.** -/
theorem key_eq_iff {o o' : Obj} : o.key = o'.key ↔ o.inode = o'.inode := by
  constructor
  · intro h
    have hcolon : str ":" = [58] := by decide
    have hdigits : ∀ n : UInt64, (58 : UInt8) ∉ decimal n := decimal_not_mem (by decide)
    simp only [Obj.key, localFdKey, List.append_assoc, List.append_cancel_left_eq, hcolon,
      List.singleton_append] at h
    have hsplit := congrArg (splitFirst 58) h
    rw [splitFirst_append 58 _ _ (hdigits _), splitFirst_append 58 _ _ (hdigits _)] at hsplit
    obtain ⟨hdev, hino⟩ := Prod.mk.inj (Option.some.inj hsplit)
    exact Prod.ext (decimal_injective hdev) (decimal_injective hino)
  · intro h
    obtain ⟨hdev, hino⟩ := Prod.mk.inj h
    rw [Obj.key, Obj.key, localFdKey, localFdKey, hdev, hino]

theorem key_ne_nil (o : Obj) : o.key ≠ [] := by
  have hlit : str "localfd:" = 108 :: str "ocalfd:" := by decide
  rw [Obj.key, localFdKey, hlit]
  simp

variable {t : Trace}

/-- The record of a channel event, on the side it is on. -/
theorem isChannel_stream (o : Origin) {chan role : NimStr} (path : NimStr) (fd : UInt32)
    (peer : UInt64) (hshape : (chan = str "localfd" ∧ role = str "create") ∨
      (chan = str "opaque" ∧ role = str "read")) (chan' role' : NimStr) :
    isChannel chan' role' (stampRunId run.text (channelRecord o chan role path fd peer)) = true ↔
      chan = chan' ∧ role = role' := by
  obtain ⟨hchan, hrole, -⟩ := channelTokens run o path fd peer hshape
  rw [isChannel, hchan, hrole, stampRunId_kind]
  simp [channelRecord, baseRecord]

/-- The channels the records say the tree made. -/
theorem mem_created (h : Told t) (key : NimStr) :
    key ∈ channelPaths (str "localfd") (str "create") (wholeStream run t.events) ↔
      ∃ o ∈ t.paired, o.key = key := by
  rw [channelPaths, List.mem_map]
  simp only [List.mem_filter]
  constructor
  · rintro ⟨r, ⟨hr, hchannel⟩, rfl⟩
    obtain ⟨⟨origin, ev⟩, he, r₀, hr₀, hev, rfl⟩ :=
      (mem_stream_evidence (isChannel_isEvidence hchannel)).mp hr
    have hk : r₀.kind = mrExternalContent := by
      simp only [isChannel, Bool.and_eq_true, beq_iff_eq, stampRunId_kind] at hchannel
      exact hchannel.1.1
    cases hev with
    | channel chan role path fd peer =>
      have htold := h.channels _ he rfl
      generalize hshown : ShimEvent.externalContent chan role path fd peer = ev at htold
      cases htold with
      | create fd' ho =>
        cases hshown
        exact ⟨_, ho, by simp [channelRecord]⟩
      | read fd' ho =>
        cases hshown
        have := ((isChannel_stream run origin _ _ _ (.inr ⟨rfl, rfl⟩) _ _).mp hchannel).1
        exact absurd this (by decide)
    | start => cases hk
    | spawn => cases hk
    | connect => cases hk
    | exec _ hexec => cases hk.symm.trans hexec
  · rintro ⟨o, ho, rfl⟩
    obtain ⟨⟨origin, ev⟩, he, fd, hev⟩ := h.paired o ho
    cases hev
    refine ⟨stampRunId run.text (channelRecord origin (str "localfd") (str "create") o.key fd 0),
      ⟨mem_wholeStream.mpr ⟨_, he, _, List.mem_singleton.mpr rfl, rfl⟩, ?_⟩,
      by simp [channelRecord]⟩
    exact (isChannel_stream run origin _ _ _ (.inl ⟨rfl, rfl⟩) _ _).mpr ⟨rfl, rfl⟩

/-- **The channels**: a consume stands alone unless its inode was made in the tree or its producer
is known. -/
theorem channels_stream (h : Told t) (trusted : List UInt64) :
    (∀ r ∈ wholeStream run t.events, consumeKey (wholeStream run t.events) r ≠ [] →
      producerAccounted (processStartIdentities (wholeStream run t.events)) trusted r = true) ↔
      ∀ o ∈ t.consumed, MadeIn t.paired o ∨ (o.producer ≠ 0 ∧
        (o.producer ∈ t.events.filterMap startOf ∨ o.producer ∈ trusted)) := by
  have hmade : ∀ o : Obj,
      o.key ∈ channelPaths (str "localfd") (str "create") (wholeStream run t.events) ↔
        MadeIn t.paired o := by
    intro o
    rw [mem_created run h]
    exact exists_congr fun o' => and_congr_right fun _ => key_eq_iff
  -- a read has a key unless the inode was made in the tree
  have hkey : ∀ (origin : Origin) (o : Obj) (fd : UInt32),
      consumeKey (wholeStream run t.events) (stampRunId run.text
      (channelRecord origin (str "opaque") (str "read") o.key fd o.producer)) ≠ [] ↔
        ¬ MadeIn t.paired o := by
    intro origin o fd
    have hshape := isChannel_stream run origin o.key fd o.producer (.inr ⟨rfl, rfl⟩)
    rw [consumeKey, if_neg (by rw [hshape]; decide), if_neg (by rw [hshape]; decide),
      if_pos ((hshape _ _).mpr ⟨rfl, rfl⟩), stampRunId_path, ← hmade]
    by_cases hin : o.key ∈ channelPaths (str "localfd") (str "create") (wholeStream run t.events)
    · simp [channelRecord, hin]
    · simp [channelRecord, hin, key_ne_nil o]
  have hproducer : ∀ (origin : Origin) (o : Obj) (fd : UInt32), producerAccounted
      (processStartIdentities (wholeStream run t.events)) trusted (stampRunId run.text
        (channelRecord origin (str "opaque") (str "read") o.key fd o.producer)) = true ↔
        o.producer ≠ 0 ∧ (o.producer ∈ t.events.filterMap startOf ∨ o.producer ∈ trusted) := by
    intro origin o fd
    obtain ⟨hdup, -, htoken⟩ := tokens_absent
      (channelTokens run origin o.key fd o.producer (.inr ⟨rfl, rfl⟩)).peerStart
    have hmonitored : childIsMonitored (channelRecord origin (str "opaque") (str "read") o.key fd
        o.producer).childOsPid [] (processStartIdentities (wholeStream run t.events)) = true ↔
          o.producer ∈ t.events.filterMap startOf := childIsMonitored_stream run t.events o.producer
    rw [producerAccounted, hdup, htoken, stampRunId_childOsPid, Bool.and_eq_true, Bool.and_eq_true,
      Bool.or_eq_true, List.contains_iff_mem, bne_iff_ne, hmonitored]
    simp [channelRecord]
  constructor
  · intro hall o ho
    by_cases hin : MadeIn t.paired o
    · exact .inl hin
    obtain ⟨⟨origin, ev⟩, he, fd, hev⟩ := h.consumed o ho
    cases hev
    exact .inr ((hproducer origin o fd).mp (hall _
      (mem_wholeStream.mpr ⟨_, he, _, List.mem_singleton.mpr rfl, rfl⟩)
      ((hkey origin o fd).mpr hin)))
  · intro hall r hr hne
    obtain ⟨⟨origin, ev⟩, he, r₀, hr₀, hev, rfl⟩ :=
      (mem_stream_evidence (isEvidence_of_consumeKey _ hne)).mp hr
    have hother : r₀.kind ≠ mrExternalContent → False := by
      intro hk
      refine hne ?_
      simp [consumeKey, isChannel, hk]
    cases hev with
    | channel chan role path fd peer =>
      have htold := h.channels _ he rfl
      generalize hshown : ShimEvent.externalContent chan role path fd peer = ev at htold
      cases htold with
      | @create o fd' ho =>
        cases hshown
        have hshape := isChannel_stream run origin o.key fd 0 (.inl ⟨rfl, rfl⟩)
        refine absurd ?_ hne
        rw [consumeKey, if_neg (by rw [hshape]; decide), if_neg (by rw [hshape]; decide),
          if_neg (by rw [hshape]; decide)]
      | @read o fd' ho =>
        cases hshown
        have hout := (hkey origin o fd).mp hne
        have hconsumed : o ∈ t.consumed := ho.resolve_right hout
        exact (hproducer origin o fd).mpr ((hall o hconsumed).resolve_left hout)
    | start => exact (hother (by simp [startRecord, baseRecord])).elim
    | spawn => exact (hother (by simp [spawnRecord, baseRecord])).elim
    | connect => exact (hother (by simp [connectRecord, baseRecord])).elim
    | exec _ hexec => exact (hother (by simp [hexec])).elim

/-- Every record of an event names its process. -/
theorem records_osPid {o : Origin} {ev : ShimEvent} {r : MonitorRecord} (h : r ∈ ev.records o) :
    r.osPid = o.osPid := by
  cases ev with
  | fopen path mode =>
    simp only [ShimEvent.records, recordFopen, List.mem_append] at h
    rcases h with (h | h) | h <;> split at h <;>
      first | exact absurd h List.not_mem_nil | rw [List.mem_singleton.mp h, baseRecord]
  | _ =>
    rw [List.mem_singleton.mp h]
    rfl

/-- A start or exec record comes of an accounting event. -/
theorem isAccounting_of_kind {o : Origin} {ev : ShimEvent} {r : MonitorRecord}
    (h : r ∈ ev.records o) (hk : r.kind = mrProcessStart ∨ r.kind = mrProcessExec) :
    ev.isAccounting = true := by
  have he : isEvidence r = true := by
    rcases hk with hk | hk <;> exact isEvidence_of_kind hk (by simp)
  cases ev with
  | processStart | exec | execFailed => rfl
  | fopen path mode =>
    rcases recordFopen_kind h with hf | hf <;> rw [hf] at hk <;> rcases hk with hk | hk <;> cases hk
  | nonFile input path =>
    rw [List.mem_singleton.mp h] at hk
    cases input <;> rcases hk with hk | hk <;> cases hk
  | _ =>
    rw [List.mem_singleton.mp h] at hk
    rcases hk with hk | hk <;> cases hk

/-- The counters of a stream count the events of the process. -/
theorem counters_of_events (pid : UInt64) :
    startCount (wholeStream run events) pid = starts events pid ∧
      execCount (wholeStream run events) pid = execs events pid ∧
      execFailedCount (wholeStream run events) pid = failures events pid := by
  induction events with
  | nil => exact ⟨rfl, rfl, rfl⟩
  | cons e rest ih =>
    obtain ⟨o, ev⟩ := e
    obtain ⟨hs, hx, hf⟩ := ih
    rw [wholeStream_cons]
    simp only [startCount, execCount, execFailedCount, List.countP_append, starts, execs, failures,
      List.countP_cons] at hs hx hf ⊢
    by_cases hown : o.osPid = pid ∧ ev.isAccounting = true
    · obtain ⟨hs₀, hx₀, hf₀⟩ := counters_event run hown.1 hown.2
      simp only [startCount, execCount, execFailedCount] at hs₀ hx₀ hf₀
      have hpid : (o.osPid == pid) = true := beq_iff_eq.mpr hown.1
      rw [hs, hx, hf, hs₀, hx₀, hf₀, hpid]
      simp only [Bool.true_and]
      omega
    · -- an event of another process, or one that is not counted
      have hzero : ∀ p : MonitorRecord → Bool,
          (∀ r, p r = true → r.osPid = pid ∧ (r.kind = mrProcessStart ∨ r.kind = mrProcessExec)) →
          ((ev.records o).map (stampRunId run.text)).countP p = 0 := by
        intro p hp
        rw [List.countP_eq_zero]
        intro r hr hcount
        obtain ⟨r₀, hr₀, rfl⟩ := List.mem_map.mp hr
        obtain ⟨hpid, hk⟩ := hp _ hcount
        rw [stampRunId_kind] at hk
        rw [stampRunId_osPid] at hpid
        exact hown ⟨(records_osPid hr₀).symm.trans hpid, isAccounting_of_kind hr₀ hk⟩
      have hno : ∀ f : ShimEvent → Bool, (∀ ev, f ev = true → ev.isAccounting = true) →
          (o.osPid == pid && f ev) = false := by
        intro f hacc
        by_contra hf
        rw [Bool.not_eq_false, Bool.and_eq_true, beq_iff_eq] at hf
        exact hown ⟨hf.1, hacc ev hf.2⟩
      have hstart : ∀ ev : ShimEvent, ev.isStart = true → ev.isAccounting = true :=
        fun ev h => by simp [ShimEvent.isAccounting, h]
      have hexec : ∀ ev : ShimEvent, ev.isExec = true → ev.isAccounting = true :=
        fun ev h => by simp [ShimEvent.isAccounting, h]
      have hfailed : ∀ ev : ShimEvent, ev.isExecFailed = true → ev.isAccounting = true :=
        fun ev h => by simp [ShimEvent.isAccounting, h]
      rw [hs, hx, hf, hno _ hstart, hno _ hexec, hno _ hfailed, hzero _ ?_, hzero _ ?_, hzero _ ?_]
      · simp
      all_goals
        intro r hr
        simp only [Bool.and_eq_true, beq_iff_eq] at hr
      · exact ⟨hr.1.2, .inr hr.1.1⟩
      · exact ⟨hr.1.2, .inr hr.1.1⟩
      · exact ⟨hr.2, .inl hr.1⟩

/-- **The losses**: a record of a loss is the shim's own report of one. -/
theorem losses_stream :
    (∀ r ∈ wholeStream run events, IoMon.isLoss r = false) ↔
      ∀ e ∈ events, ∀ detail result, e.2 ≠ .eventLoss detail result := by
  have hstamped : ∀ r, IoMon.isLoss (stampRunId run.text r) = IoMon.isLoss r := by
    intro r
    unfold stampRunId
    split <;> rfl
  constructor
  · intro h e he detail result hev
    obtain ⟨o, ev⟩ := e
    cases hev
    have hloss := h _ (mem_wholeStream.mpr ⟨_, he, _, List.mem_singleton.mpr rfl, rfl⟩)
    rw [hstamped] at hloss
    cases hloss
  · intro h r hr
    obtain ⟨⟨o, ev⟩, he, r₀, hr₀, rfl⟩ := mem_wholeStream.mp hr
    rw [hstamped]
    cases ev with
    | eventLoss detail result => exact absurd rfl (h _ he detail result)
    | fopen path mode =>
      simp only [ShimEvent.records, recordFopen, List.mem_append] at hr₀
      rcases hr₀ with (hr₀ | hr₀) | hr₀ <;> split at hr₀ <;>
        first | exact absurd hr₀ List.not_mem_nil | (rw [List.mem_singleton.mp hr₀]; rfl)
    | nonFile input path =>
      rw [List.mem_singleton.mp hr₀]
      cases input <;> rfl
    | fileOpen path flags fd =>
      rw [List.mem_singleton.mp hr₀, IoMon.isLoss]
      simp only [baseRecord, observationForOpen]
      split <;> (try split) <;> rfl
    | _ =>
      rw [List.mem_singleton.mp hr₀]
      rfl

end Stream

/-! ## 5. The conditions of the passes on a run -/

/-- What the passes ask of the records, apart from the two tallies. -/
structure Closes (l : List MonitorRecord) (root : UInt64) (trusted : List UInt64) : Prop where
  noLoss : ∀ r ∈ l, IoMon.isLoss r = false
  root : childIsMonitored root [] (processStartIdentities l) = true
  spawns : ∀ r ∈ l, namesChild r = true → spawnAccounted (processStartIdentities l) r = true
  peers : ∀ r ∈ l, r.kind = mrIpcConnect →
    peerAccounted (processStartIdentities l) trusted r = true
  content : ∀ r ∈ l, consumeKey l r ≠ [] →
    producerAccounted (processStartIdentities l) trusted r = true

/-- The same evidence in any order, and any number of times. -/
theorem Closes.of_sameEvidence {l l' : List MonitorRecord} (h : SameEvidenceSet l l')
    {root : UInt64} {trusted : List UInt64} (hc : Closes l root trusted) :
    Closes l' root trusted := by
  have hchild := childIsMonitored_sameEvidence h
  have hloss : (∀ r ∈ l, IoMon.isLoss r = false) ↔ ∀ r ∈ l', IoMon.isLoss r = false :=
    h.forall_iff fun r r' hsame => by rw [isLoss_congr hsame.content]
  refine ⟨hloss.mp hc.noLoss, by rw [← hchild]; exact hc.root, fun r' hr' hnames => ?_,
    fun r' hr' hk => ?_, fun r' hr' hkey => ?_⟩
  · obtain ⟨r, hr, hsame⟩ := h.right r' hr'
    have hspawn := hc.spawns r hr ((namesChild_sameEvidence hsame).trans hnames)
    obtain ⟨-, hpid⟩ := hsame.symm.pids (namesChild_isEvidence hnames)
    rw [spawnAccounted, ← hchild, hpid, ← hsame.content.2.2.2]
    exact hspawn
  · obtain ⟨r, hr, hsame⟩ := h.right r' hr'
    have hpeer := hc.peers r hr (hsame.content.1.trans hk)
    obtain ⟨-, hpid⟩ := hsame.symm.pids (isEvidence_of_kind hk (by simp))
    rw [peerAccounted, ← hchild, hpid, ← hsame.content.2.2.2]
    exact hpeer
  · obtain ⟨r, hr, hsame⟩ := h.right r' hr'
    have hproducer := hc.content r hr (by rwa [consumeKey_sameEvidence h hsame.content])
    obtain ⟨-, hpid⟩ := hsame.symm.pids (isEvidence_of_consumeKey l' hkey)
    rw [producerAccounted, ← hchild, hpid, ← hsame.content.2.2.2]
    exact hproducer

theorem mem_observedRecords {m : MergeInput} {r : MonitorRecord} (he : isEvidence r = true) :
    r ∈ observedRecords m ↔ r ∈ keptRecords m := by
  rw [observedRecords, List.mem_filter, not_marker_of_isEvidence he]
  exact and_iff_left rfl

/-- The clauses of the verdict that do not count. -/
theorem setSpec_iff_closes {m : MergeInput} (hroot : m.expectedRootPid ≠ 0)
    (hfragments : ∀ e ∈ m.fragments, e.corrupt = false ∧ e.unreadable = false)
    (hscope : staleLosses (capturedRecords m) m.runScope = []) (hsidecars : killedReaders m = 0) :
    SetSpec m ↔ Closes (observedRecords m) m.expectedRootPid (trustedDaemons m) := by
  have hstarts : processStartIdentities (observedRecords m) =
      processStartIdentities (keptRecords m) := by
    rw [← processStartIdentities_evidence, evidence_observedRecords,
      processStartIdentities_evidence]
  have hkey : ∀ r, consumeKey (observedRecords m) r = consumeKey (keptRecords m) r := by
    intro r
    rw [← consumeKey_evidence, evidence_observedRecords, consumeKey_evidence]
  constructor
  · intro h
    refine ⟨fun r hr => ?_, hstarts ▸ h.root hroot, fun r hr hnames => ?_, fun r hr hk => ?_,
      fun r hr hne => ?_⟩
    · obtain ⟨hkept, hmarker⟩ := List.mem_filter.mp hr
      by_contra hloss
      rw [h.noLoss r hkept (Bool.not_eq_false _ ▸ hloss)] at hmarker
      cases hmarker
    · obtain ⟨hdup, hchild⟩ :=
        h.spawns r ((mem_observedRecords (namesChild_isEvidence hnames)).mp hr) hnames
      rw [spawnAccounted, hstarts, hdup, hchild]
      rfl
    · rw [hstarts]
      exact h.peers r ((mem_observedRecords (isEvidence_of_kind hk (by simp))).mp hr) hk
    · rw [hkey] at hne
      rw [hstarts]
      exact h.content r ((mem_observedRecords (isEvidence_of_consumeKey _ hne)).mp hr) hne
  · intro h
    refine ⟨hfragments, hscope, fun r hr hloss => ?_, hsidecars, fun _ => hstarts ▸ h.root,
      fun r hr hnames => ?_, fun r hr hk => ?_, fun r hr hne => ?_⟩
    · by_contra hmarker
      have hobserved : r ∈ observedRecords m := by
        rw [observedRecords, List.mem_filter]
        exact ⟨hr, by simpa using hmarker⟩
      rw [h.noLoss r hobserved] at hloss
      cases hloss
    · have hspawn := h.spawns r ((mem_observedRecords (namesChild_isEvidence hnames)).mpr hr) hnames
      rw [spawnAccounted, hstarts, Bool.and_eq_true, Bool.not_eq_true'] at hspawn
      exact hspawn
    · rw [← hstarts]
      exact h.peers r ((mem_observedRecords (isEvidence_of_kind hk (by simp))).mpr hr) hk
    · rw [← hkey] at hne
      rw [← hstarts]
      exact h.content r ((mem_observedRecords (isEvidence_of_consumeKey _ hne)).mpr hr) hne

/-- The process is of the tree, or one of the daemons that are trusted. -/
def Known (t : Trace) (trusted : List UInt64) (pid : UInt64) : Prop :=
  pid ≠ 0 ∧ (pid ∈ t.started ∨ pid ∈ trusted)

/-- **The conditions of the passes on the records of a run.** -/
theorem closes_stream {run : RunId} {root : UInt64} {t : Trace} (htold : Told t)
    (hlisted : Listed root t) (hchildren : ∀ e ∈ t.events, ∀ child, childOf e = some child →
      child ≠ 0 ∧ child ≠ e.1.osPid) (trusted : List UInt64) :
    Closes (wholeStream run t.events) root trusted ↔
      (∀ pid ∈ t.recorded, pid ∈ t.started) ∧ (∀ pid ∈ t.dialled, Known t trusted pid) ∧
      (∀ o ∈ t.consumed, MadeIn t.paired o ∨ Known t trusted o.producer) ∧
      ∀ e ∈ t.events, ∀ detail result, e.2 ≠ .eventLoss detail result := by
  have hspawns := spawn_stream run t.events hchildren
    (Q := fun r => spawnAccounted (processStartIdentities (wholeStream run t.events)) r = true)
    (fun o via path child result => spawnAccounted_stream run t.events o via path child result)
  have hpeers := peers_stream run t.events trusted
  have hcontent := channels_stream run htold trusted
  have hroot := childIsMonitored_stream run t.events root
  have hlosses := losses_stream run t.events
  simp only [Known, hlisted.started, hlisted.recorded, hlisted.dialled, List.forall_mem_append,
    List.forall_mem_singleton]
  constructor
  · intro h
    exact ⟨⟨hspawns.mp h.spawns, hroot.mp h.root⟩, hpeers.mp h.peers, hcontent.mp h.content,
      hlosses.mp h.noLoss⟩
  · rintro ⟨⟨hs, hr⟩, hp, hc, hl⟩
    exact ⟨hlosses.mpr hl, hroot.mpr hr, hspawns.mpr hs, hpeers.mpr hp, hcontent.mpr hc⟩

/-! ## 6. The verdict on a run -/

/-- **Nothing outside the tree took part**, and no shim reports a loss. -/
structure Closed (s : System) (trusted : List UInt64) : Prop where
  images : ∀ pid ∈ s.trace.recorded, ∃ p, s.procs pid = some p ∧ p.image = .observing
  peers : ∀ pid ∈ s.trace.dialled, Known s.trace trusted pid
  channels : ∀ o ∈ s.trace.consumed, MadeIn s.trace.paired o ∨ Known s.trace trusted o.producer
  losses : ∀ e ∈ s.trace.events, ∀ detail result, e.2 ≠ .eventLoss detail result

/-- **The capture of a run arrived whole.**  The read-tail markers are not among the events; they
only have to be even. -/
structure Delivered (run : RunId) (s : System) (root : UInt64) (m : MergeInput) : Prop where
  root : m.expectedRootPid = root
  evidence : SameEvidenceSet (observedRecords m) (wholeStream run s.trace.events)
  starts : ∀ pid, startCount (keptRecords m) pid = startCount (wholeStream run s.trace.events) pid
  execs : ∀ pid, effectiveExecs (keptRecords m) pid =
    effectiveExecs (wholeStream run s.trace.events) pid
  readTail : ∀ key, pendingCount (keptRecords m) key ≤ committedCount (keptRecords m) key
  fragments : ∀ e ∈ m.fragments, e.corrupt = false ∧ e.unreadable = false
  scope : staleLosses (capturedRecords m) m.runScope = []
  sidecars : killedReaders m = 0
  profiles : ∀ r ∈ capturedRecords m, r.kind ≠ mrBackendProfile

/-- The pids that are named as children are those with a spawn record, and the root. -/
theorem namedAsChild_delivered {run : RunId} {s : System} {root : UInt64} {m : MergeInput}
    (h : Delivered run s root m) (hroot : root ≠ 0) (hlisted : Listed root s.trace)
    (hbalanced : Balanced s) (pid : UInt64) : namedAsChild m pid ↔ pid ∈ s.trace.recorded := by
  have hkept : (∃ r ∈ keptRecords m, namesChild r = true ∧ r.childOsPid = pid) ↔
      ∃ r ∈ observedRecords m, namesChild r = true ∧ r.childOsPid = pid := by
    refine exists_congr fun r => ?_
    constructor
    · rintro ⟨hr, hnames, hpid⟩
      exact ⟨(mem_observedRecords (namesChild_isEvidence hnames)).mpr hr, hnames, hpid⟩
    · rintro ⟨hr, hnames, hpid⟩
      exact ⟨(mem_observedRecords (namesChild_isEvidence hnames)).mp hr, hnames, hpid⟩
  have hstream : (∃ r ∈ observedRecords m, namesChild r = true ∧ r.childOsPid = pid) ↔
      ∃ r ∈ wholeStream run s.trace.events, namesChild r = true ∧ r.childOsPid = pid := by
    refine h.evidence.exists_iff fun r r' hsame => ?_
    rw [namesChild_sameEvidence hsame]
    refine and_congr_right fun hnames => ?_
    rw [(hsame.symm.pids (namesChild_isEvidence hnames)).2]
  have hspawns := spawn_stream run s.trace.events hbalanced.children
    (Q := fun r => r.childOsPid ≠ pid) (P := fun child => child ≠ pid)
    fun o via path child result => by rw [stampRunId_childOsPid]; rfl
  have hchild : (∃ r ∈ wholeStream run s.trace.events, namesChild r = true ∧ r.childOsPid = pid) ↔
      pid ∈ s.trace.events.filterMap childOf := by
    rw [← not_iff_not, ← List.forall_mem_ne', ← hspawns]
    push Not
    rfl
  rw [namedAsChild, hkept, hstream, hchild, hlisted.recorded, h.root, List.mem_append,
    List.mem_singleton, eq_comm (a := pid)]
  exact or_congr_right (and_iff_right hroot)

/-- **The tally of a recorded process shows the image it ended in.** -/
theorem observing_iff {s : System} (h : Balanced s) {pid : UInt64} {p : Proc}
    (hp : s.procs pid = some p) : p.image = .observing ↔ 0 < starts s.trace.events pid ∧
      ((0 : Int) < execs s.trace.events pid - failures s.trace.events pid →
        (execs s.trace.events pid - failures s.trace.events pid : Int) <
          starts s.trace.events pid) := by
  obtain ⟨hbalance, hfailed⟩ := h.tally hp
  by_cases hobserving : p.image = .observing
  · rw [if_pos hobserving] at hbalance
    refine iff_of_true hobserving ⟨?_, ?_⟩ <;> omega
  · rw [if_neg hobserving] at hbalance
    refine iff_of_false hobserving fun hcount => ?_
    obtain ⟨hstarts, hcatch⟩ := hcount
    have := hcatch (by omega)
    omega

theorem started_iff {root : UInt64} {t : Trace} (h : Listed root t) (pid : UInt64) :
    pid ∈ t.started ↔ 0 < starts t.events pid := by
  rw [h.started, starts, List.countP_pos_iff, List.mem_filterMap]
  refine exists_congr fun e => and_congr_right fun _ => ?_
  rw [startOf, Option.ite_none_right_eq_some, Option.some.injEq, Bool.and_eq_true, beq_iff_eq]
  exact and_comm

/-- A capture that consists of a stream, in a run that names no run id. -/
def streamCapture (root : UInt64) (events : List Event) : MergeInput where
  setRecords := wholeStream noRunId events
  expectedRootPid := root

theorem delivered_streamCapture {s : System} (root : UInt64)
    (h : ∀ r ∈ wholeStream noRunId s.trace.events, hasDuplicateIdentityToken r.detail = false ∧
      isReadTailMarker r = false ∧ r.kind ≠ mrBackendProfile) :
    Delivered noRunId s root (streamCapture root s.trace.events) := by
  have hcaptured : capturedRecords (streamCapture root s.trace.events) =
      wholeStream noRunId s.trace.events := List.nil_append _
  have hkeep : ∀ r ∈ wholeStream noRunId s.trace.events,
      staleAction (wholeStream noRunId s.trace.events) [] r = .keep := by
    intro r hr
    rw [staleAction, (h r hr).1]
    rfl
  have hkept : keptRecords (streamCapture root s.trace.events) =
      wholeStream noRunId s.trace.events := by
    rw [keptRecords, hcaptured]
    exact List.filter_eq_self.mpr fun r hr => beq_iff_eq.mpr (hkeep r hr)
  have hobserved : observedRecords (streamCapture root s.trace.events) =
      wholeStream noRunId s.trace.events := by
    rw [observedRecords, hkept]
    exact List.filter_eq_self.mpr fun r hr => by rw [(h r hr).2.1]; rfl
  have hpending : ∀ key, pendingCount (wholeStream noRunId s.trace.events) key = 0 := by
    intro key
    rw [pendingCount, List.countP_eq_zero]
    intro r hr hpending
    have hmarker := (h r hr).2.1
    rw [isReadTailMarker, Bool.or_eq_false_iff] at hmarker
    rw [hmarker.1] at hpending
    cases hpending
  refine ⟨rfl, ?_, fun pid => by rw [hkept], fun pid => by rw [hkept], fun key => ?_,
    fun e he => absurd he List.not_mem_nil, ?_, rfl, fun r hr => ?_⟩
  · rw [hobserved]
    exact ⟨fun r hr => ⟨r, hr, .refl r⟩, fun r hr => ⟨r, hr, .refl r⟩⟩
  · rw [hkept, hpending]
    exact Nat.zero_le _
  · rw [hcaptured]
    exact staleLosses_eq_nil.mpr fun r hr => .inl (hkeep r hr)
  · rw [hcaptured] at hr
    exact (h r hr).2.2

/-- A shell makes a pipe and forks; the child execs a reader, which keeps the reading end. -/
def shell : Origin := { osPid := 10 }

def reader : Origin := { osPid := 11, parentOsPid := 10 }

def pipeEnd : Obj := { identity := ⟨7, 40, .fkFifo⟩, link := some (str "pipe:[40]") }

def pipeline : List (Origin × Call) :=
  [(shell, .own (.pair 3 4 pipeEnd pipeEnd)), (shell, .fork reader true),
    (reader, .execve (str "/bin/cat") (.landed true (fun fd => fd == 3) reader)),
    (reader, .own (.read 3 5 true))]

def launchedShell : System := launch shell true fun _ => none

/-- The state after the pipeline. -/
def pipelineSystem : System :=
  (GuardedRuns.run ProcessTree.step launchedShell pipeline).getD launchedShell

theorem pipeline_runs :
    GuardedRuns.run ProcessTree.step launchedShell pipeline = some pipelineSystem := by
  have hsome : (GuardedRuns.run ProcessTree.step launchedShell pipeline).isSome = true := by
    decide +kernel
  obtain ⟨s, hs⟩ := Option.isSome_iff_exists.mp hsome
  rw [pipelineSystem, hs]
  rfl

/-- The reader reads the end it came up with. -/
theorem pipeline_covered : GuardedRuns.Meets ProcessTree.step Covered launchedShell pipeline := by
  refine ⟨?_, fun s₁ h₁ => ⟨?_, fun s₂ h₂ => ⟨?_, fun s₃ h₃ => ⟨?_, fun _ _ => trivial⟩⟩⟩⟩
  · rintro p c - - ⟨⟩
    trivial
  · rintro p c - - ⟨⟩
  · rintro p c - - ⟨⟩
  · rintro p c hp - ⟨⟩ - o ho -
    have hrun : GuardedRuns.run ProcessTree.step launchedShell (pipeline.take 3) = some s₃ :=
      GuardedRuns.run_cons.mpr ⟨s₁, h₁, GuardedRuns.run_cons.mpr ⟨s₂, h₂,
        GuardedRuns.run_cons.mpr ⟨s₃, h₃, rfl⟩⟩⟩
    have hsource : ((GuardedRuns.run ProcessTree.step launchedShell (pipeline.take 3)).bind
        fun s => (s.procs 11).bind fun p => (p.opens 3).map (·.source)) = some .inherited := by
      decide +kernel
    rw [hrun, Option.bind_some, show s₃.procs 11 = some p from hp, Option.bind_some, ho] at hsource
    cases hsource

end IoMon.ProcessTree
