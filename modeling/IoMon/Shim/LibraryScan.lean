/-
# Library-load coverage

The shim does not hook the loader; it asks it.  A scan walks the link map, passes every object it
has not met before to the record sink, and then compares the loader's cumulative counters with
what it saw: when more objects were loaded since the previous scan than appeared in the map, and
something was unloaded, an object may have come and gone unseen, and the scan emits an event loss.

The comparison is exact as long as the previous scan took its snapshot.  A scan that overflows its
buffers reports a loss and keeps the older snapshot, but moves the counters on; the next scan then
counts old arrivals against new loads.
-/
import IoMon.Shim.Emit
import Mathlib.Data.Finset.Card
import Mathlib.Order.Interval.Finset.Nat

namespace IoMon

open ByteText

/-! ## 1. The loader -/

/-- An object of the link map: its base address and its name. -/
structure LoadedObject where
  addr : UInt64
  name : NimStr
  deriving DecidableEq, Repr

/-- The loader's link map, each object with its load number, and the cumulative counters. -/
structure Loader where
  map : List (Nat × LoadedObject) := []
  adds : Nat := 0
  subs : Nat := 0
  deriving DecidableEq, Repr

def Loader.load (l : Loader) (o : LoadedObject) : Loader :=
  { l with map := l.map ++ [(l.adds, o)], adds := l.adds + 1 }

/-- Unloading what is not mapped does nothing. -/
def Loader.unload (l : Loader) (id : Nat) : Loader :=
  if id ∈ l.map.map (·.1) then
    { l with map := l.map.filter (fun p => p.1 != id), subs := l.subs + 1 }
  else l

/-! ## 2. A scan -/

def llMaxObjects : Nat := 512
def llNameBytes : Nat := 128 * 1024
def llSeenMax : Nat := 2048
def llSeenNameBytes : Nat := 256 * 1024

/-- `ct_ll_snapshot` without its counters. -/
structure LlSnapshot where
  entries : List LoadedObject := []
  nameUsed : Nat := 0
  overflow : Bool := false
  deriving DecidableEq, Repr

/-- `ct_ll_collect`: an object that does not fit is skipped and marks the overflow. -/
def llCollect (s : LlSnapshot) (o : LoadedObject) : LlSnapshot :=
  if llMaxObjects ≤ s.entries.length then { s with overflow := true }
  else if llNameBytes < s.nameUsed + o.name.length + 1 then { s with overflow := true }
  else
    { s with entries := s.entries ++ [o], nameUsed := s.nameUsed + o.name.length + 1 }

/-- What `dl_iterate_phdr` leaves in the snapshot. -/
def llSnapshot (objects : List LoadedObject) : LlSnapshot := objects.foldl llCollect {}

/-- The state kept between scans. -/
structure LlScanner where
  seen : List LoadedObject := []
  active : List LoadedObject := []
  lastAdds : Nat := 0
  lastSubs : Nat := 0
  deriving DecidableEq, Repr

def llSeenUsed (seen : List LoadedObject) : Nat := (seen.map fun o => o.name.length + 1).sum

def llSeenAdd (seen : List LoadedObject) (o : LoadedObject) : Option (List LoadedObject) :=
  if llSeenMax ≤ seen.length then none
  else if llSeenNameBytes < llSeenUsed seen + o.name.length + 1 then none
  else some (seen ++ [o])

/-- What the loop over the snapshot computes. -/
structure LlWalk where
  seen : List LoadedObject
  newlyActive : Nat
  sunk : List LoadedObject
  overflow : Bool
  deriving DecidableEq, Repr

/-- The loop: count what is new against the active snapshot, sink what was never seen, and stop
when the seen-set is full. -/
def llWalk (active : List LoadedObject) : List LoadedObject → List LoadedObject → LlWalk
  | [], seen => ⟨seen, 0, [], false⟩
  | o :: rest, seen =>
    let fresh := if active.contains o then 0 else 1
    if seen.contains o then
      let w := llWalk active rest seen
      { w with newlyActive := fresh + w.newlyActive }
    else
      match llSeenAdd seen o with
      | none => ⟨seen, fresh, [], true⟩
      | some seen' =>
        let w := llWalk active rest seen'
        { w with newlyActive := fresh + w.newlyActive, sunk := o :: w.sunk }

/-- What `ct_linux_library_scan` reports. -/
structure LlReport where
  sunk : List LoadedObject
  performed : Nat
  removed : Nat
  newlyActive : Nat
  countersValid : Bool
  overflow : Bool
  deriving DecidableEq, Repr

/-- `ct_linux_library_scan`.  The counters come with every entry, so they are valid when the walk
visits one. -/
def libraryScan (sc : LlScanner) (l : Loader) : LlScanner × LlReport :=
  let snap := llSnapshot (l.map.map (·.2))
  let walk := llWalk sc.active snap.entries sc.seen
  let overflow := snap.overflow || walk.overflow
  let valid := !l.map.isEmpty
  let addsOk := valid && decide (sc.lastAdds ≤ l.adds)
  let subsOk := valid && decide (sc.lastSubs ≤ l.subs)
  ({ seen := walk.seen
     active := if overflow then sc.active else snap.entries
     lastAdds := if addsOk then l.adds else sc.lastAdds
     lastSubs := if subsOk then l.subs else sc.lastSubs },
   { sunk := walk.sunk
     performed := if addsOk then l.adds - sc.lastAdds else 0
     removed := if subsOk then l.subs - sc.lastSubs else 0
     newlyActive := walk.newlyActive
     countersValid := valid
     overflow := overflow })

/-! ## 3. The sink and the coverage proof -/

def shimLibraryName : NimStr := str "librepro_monitor_shim.so"

/-- `libraryLoadRecordablePath`: not the main executable, not relative, not the shim. -/
def libraryLoadRecordablePath (path : NimStr) : Bool :=
  !path.isEmpty && startsWith path (str "/") && !endsWith path shimLibraryName

/-- The kernel's own object has no file. -/
def isVdso (path : NimStr) : Bool :=
  startsWith path (str "linux-vdso") || startsWith path (str "linux-gate")

/-- The sink records an object it can name. -/
def libraryScanSink (reason : ScanReason) (o : LoadedObject) : List ShimEvent :=
  if libraryLoadRecordablePath o.name then [.libraryLoad o.name reason] else []

/-- The sink flags an object the loader names relatively. -/
def sinkFails (o : LoadedObject) : Bool :=
  !libraryLoadRecordablePath o.name &&
    (!o.name.isEmpty && !startsWith o.name (str "/") && !isVdso o.name)

/-- The loss text, when coverage is not proved. -/
def coverageLoss (reason : ScanReason) (rep : LlReport) : Option NimStr :=
  let why := str "(" ++ reason.text ++ str ")"
  if rep.sunk.any sinkFails then
    some (str ("library-load coverage gap: a loaded object could not be " ++
      "recorded or is named only relatively by the loader, so the file behind " ++
      "it cannot be identified ") ++ why)
  else if rep.overflow then
    some (str ("library-load enumeration overflowed its snapshot buffer: " ++
      "the process has more loaded objects than the scan can hold ") ++ why)
  else if !rep.countersValid then
    some (str ("library-load coverage is unprovable: this loader does not " ++
      "report dlpi_adds/dlpi_subs, so a library loaded and unloaded between " ++
      "scans would be undetectable ") ++ why)
  else if decide (rep.newlyActive < rep.performed) && decide (0 < rep.removed) then
    some (str "library-load coverage gap: the loader performed " ++
      decimal (UInt64.ofNat rep.performed) ++
      str " load(s) since the previous scan but only " ++
      decimal (UInt64.ofNat rep.newlyActive) ++
      str " object(s) appeared in the link map " ++ why ++ str "; " ++
      decimal (UInt64.ofNat rep.removed) ++
      str (" object(s) were unloaded — at least one " ++
        "shared object may have been loaded and unloaded without " ++
        "being observed, so its bytes are an input this capture cannot name"))
  else none

/-! ## 4. Runs -/

inductive LibraryOp
  | load (o : LoadedObject)
  | unload (id : Nat)
  | scan (reason : ScanReason)
  deriving DecidableEq, Repr

/-- The loader, the scanner, everything that was ever mapped, everything the sink was given, and
what the shim emitted. -/
structure LibraryState where
  loader : Loader := {}
  scanner : LlScanner := {}
  everMapped : List (Nat × LoadedObject) := []
  sunk : List LoadedObject := []
  emitted : List ShimEvent := []
  deriving DecidableEq, Repr

/-- `scanLoadedLibraries`. -/
def LibraryState.scan (st : LibraryState) (reason : ScanReason) : LibraryState :=
  let r := libraryScan st.scanner st.loader
  { st with
    scanner := r.1
    sunk := st.sunk ++ r.2.sunk
    emitted := st.emitted ++ r.2.sunk.flatMap (libraryScanSink reason) ++
      (match coverageLoss reason r.2 with
        | some detail => [.eventLoss detail 0]
        | none => []) }

def LibraryState.step (st : LibraryState) : LibraryOp → LibraryState
  | .load o =>
    { st with
      loader := st.loader.load o
      everMapped := st.everMapped ++ [(st.loader.adds, o)] }
  | .unload id => { st with loader := st.loader.unload id }
  | .scan reason => st.scan reason

def LibraryState.run (st : LibraryState) (ops : List LibraryOp) : LibraryState :=
  ops.foldl LibraryState.step st

/-! ## 5. The buffers -/

theorem llSeenUsed_cons (o : LoadedObject) (rest : List LoadedObject) :
    llSeenUsed (o :: rest) = o.name.length + 1 + llSeenUsed rest := by
  simp only [llSeenUsed, List.map_cons, List.sum_cons]

theorem llSeenUsed_snoc (seen : List LoadedObject) (o : LoadedObject) :
    llSeenUsed (seen ++ [o]) = llSeenUsed seen + o.name.length + 1 := by
  simp only [llSeenUsed, List.map_append, List.sum_append, List.map_cons, List.map_nil,
    List.sum_cons, List.sum_nil]
  omega

/-- **A snapshot stays inside its buffers, and misses something only when it says so.** -/
theorem llSnapshot_from (objects : List LoadedObject) : ∀ s : LlSnapshot,
    s.entries.length ≤ llMaxObjects → s.nameUsed = llSeenUsed s.entries →
    s.nameUsed ≤ llNameBytes →
    (objects.foldl llCollect s).entries.length ≤ llMaxObjects ∧
    llSeenUsed (objects.foldl llCollect s).entries ≤ llNameBytes ∧
    ((objects.foldl llCollect s).overflow = false →
      (objects.foldl llCollect s).entries = s.entries ++ objects) ∧
    (s.overflow = false → s.entries.length + objects.length ≤ llMaxObjects →
      s.nameUsed + llSeenUsed objects ≤ llNameBytes →
      (objects.foldl llCollect s).overflow = false) := by
  induction objects with
  | nil =>
    intro s hlen hused hbytes
    refine ⟨hlen, hused ▸ hbytes, fun _ => (List.append_nil _).symm, fun h _ _ => h⟩
  | cons o rest ih =>
    intro s hlen hused hbytes
    rw [List.foldl_cons]
    have hstays : ∀ s' : LlSnapshot, s'.overflow = true →
        (rest.foldl llCollect s').overflow = true := by
      have hstep : ∀ (s' : LlSnapshot) (o' : LoadedObject), s'.overflow = true →
          (llCollect s' o').overflow = true := by
        intro s' o' h
        unfold llCollect
        split
        · rfl
        · split
          · rfl
          · exact h
      intro s' h
      exact List.foldlRecOn rest llCollect h fun b hb a _ => hstep b a hb
    by_cases hmax : llMaxObjects ≤ s.entries.length
    · rw [llCollect, if_pos hmax]
      obtain ⟨h1, h2, _, _⟩ := ih { s with overflow := true } hlen hused hbytes
      refine ⟨h1, h2, fun hno => ?_, fun _ hfit _ => ?_⟩
      · rw [hstays _ rfl] at hno
        exact absurd hno (by simp)
      · simp only [List.length_cons] at hfit
        omega
    by_cases hbig : llNameBytes < s.nameUsed + o.name.length + 1
    · rw [llCollect, if_neg hmax, if_pos hbig]
      obtain ⟨h1, h2, _, _⟩ := ih { s with overflow := true } hlen hused hbytes
      refine ⟨h1, h2, fun hno => ?_, fun _ _ hfit => ?_⟩
      · rw [hstays _ rfl] at hno
        exact absurd hno (by simp)
      · rw [llSeenUsed_cons] at hfit
        omega
    · rw [llCollect, if_neg hmax, if_neg hbig]
      have hused' : s.nameUsed + o.name.length + 1 = llSeenUsed (s.entries ++ [o]) := by
        rw [hused, llSeenUsed_snoc]
      obtain ⟨h1, h2, h3, h4⟩ := ih
        { s with entries := s.entries ++ [o], nameUsed := s.nameUsed + o.name.length + 1 }
        (by simp only [List.length_append, List.length_singleton]; omega) hused'
        (by simp only; omega)
      refine ⟨h1, h2, fun hno => ?_, fun hs hfit hfit' => h4 hs ?_ ?_⟩
      · rw [h3 hno, List.append_assoc, List.singleton_append]
      · simp only [List.length_append, List.length_cons, List.length_nil] at hfit ⊢
        omega
      · rw [llSeenUsed_cons] at hfit'
        simp only
        omega

theorem llSnapshot_bounds (objects : List LoadedObject) :
    (llSnapshot objects).entries.length ≤ llMaxObjects ∧
      llSeenUsed (llSnapshot objects).entries ≤ llNameBytes := by
  obtain ⟨h1, h2, _⟩ := llSnapshot_from objects {} (by decide) rfl (by decide)
  exact ⟨h1, h2⟩

theorem llSnapshot_entries {objects : List LoadedObject}
    (h : (llSnapshot objects).overflow = false) : (llSnapshot objects).entries = objects :=
  (llSnapshot_from objects {} (by decide) rfl (by decide)).2.2.1 h

/-- **Exactly when a snapshot overflows.** -/
theorem llSnapshot_overflow_iff (objects : List LoadedObject) :
    (llSnapshot objects).overflow = false ↔
      objects.length ≤ llMaxObjects ∧ llSeenUsed objects ≤ llNameBytes := by
  constructor
  · intro h
    have hb := llSnapshot_bounds objects
    rwa [llSnapshot_entries h] at hb
  · rintro ⟨hlen, hbytes⟩
    refine (llSnapshot_from objects {} (by decide) rfl (by decide)).2.2.2 rfl ?_ ?_
    · simpa using hlen
    · simpa using hbytes

/-- What the loop did when it ran to its end. -/
structure WalkSpec (active entries seen : List LoadedObject) (w : LlWalk) : Prop where
  counted : w.newlyActive = entries.countP fun o => !active.contains o
  covers : ∀ o ∈ entries, o ∈ w.seen
  keeps : ∀ o ∈ seen, o ∈ w.seen
  sunk : ∀ o ∈ w.seen, o ∈ seen ∨ o ∈ w.sunk

theorem llSeenAdd_eq {seen seen' : List LoadedObject} {o : LoadedObject}
    (h : llSeenAdd seen o = some seen') : seen' = seen ++ [o] := by
  unfold llSeenAdd at h
  split at h
  · exact absurd h (by simp)
  split at h
  · exact absurd h (by simp)
  · exact (Option.some.inj h).symm

theorem walkSpec (active entries seen : List LoadedObject)
    (hno : (llWalk active entries seen).overflow = false) :
    WalkSpec active entries seen (llWalk active entries seen) := by
  induction entries generalizing seen with
  | nil => exact ⟨rfl, by simp, fun _ h => h, fun _ h => .inl h⟩
  | cons o rest ih =>
    have hbit : (if active.contains o then 0 else 1) =
        (if (!active.contains o) = true then 1 else 0) := by
      cases active.contains o <;> rfl
    unfold llWalk at hno ⊢
    by_cases hseen : seen.contains o = true
    · simp only [hseen, if_true] at hno ⊢
      obtain ⟨h1, h2, h3, h4⟩ := ih seen hno
      refine ⟨?_, fun x hx => ?_, h3, h4⟩
      · rw [List.countP_cons, ← hbit, h1]
        exact Nat.add_comm _ _
      · rcases List.mem_cons.mp hx with rfl | hx
        · exact h3 x (List.contains_iff_mem.mp hseen)
        · exact h2 x hx
    · cases hadd : llSeenAdd seen o with
      | none =>
        simp only [hseen, hadd] at hno
        exact absurd hno (by simp)
      | some seen' =>
        simp only [hseen, hadd] at hno ⊢
        obtain ⟨h1, h2, h3, h4⟩ := ih seen' hno
        have hseen' := llSeenAdd_eq hadd
        simp only [Bool.false_eq_true, if_false]
        refine ⟨?_, fun x hx => ?_, fun x hx => ?_, fun x hx => ?_⟩
        · rw [List.countP_cons, ← hbit, h1]
          exact Nat.add_comm _ _
        · rcases List.mem_cons.mp hx with rfl | hx
          · exact h3 x (by rw [hseen']; simp)
          · exact h2 x hx
        · exact h3 x (by rw [hseen']; simp [hx])
        · rcases h4 x hx with hx | hx
          · rw [hseen'] at hx
            rcases List.mem_append.mp hx with hx | hx
            · exact .inl hx
            · rw [List.mem_singleton.mp hx]
              exact .inr (List.mem_cons_self ..)
          · exact .inr (List.mem_cons_of_mem _ hx)

/-- The seen-set grows by the entries at most. -/
theorem llWalk_bounds (active entries seen : List LoadedObject) :
    (llWalk active entries seen).seen.length ≤ seen.length + entries.length ∧
    llSeenUsed (llWalk active entries seen).seen ≤ llSeenUsed seen + llSeenUsed entries ∧
    (∀ o ∈ (llWalk active entries seen).sunk, o ∈ entries) := by
  induction entries generalizing seen with
  | nil => exact ⟨Nat.le_refl _, Nat.le_refl _, by simp [llWalk]⟩
  | cons o rest ih =>
    rw [llSeenUsed_cons, List.length_cons]
    unfold llWalk
    by_cases hseen : seen.contains o = true
    · obtain ⟨h1, h2, h3⟩ := ih seen
      simp only [hseen, if_true]
      exact ⟨by omega, by omega, fun x hx => List.mem_cons_of_mem _ (h3 x hx)⟩
    · simp only [hseen]
      cases hadd : llSeenAdd seen o with
      | none =>
        simp only [Bool.false_eq_true, if_false]
        exact ⟨by omega, by omega, by simp⟩
      | some seen' =>
        obtain ⟨h1, h2, h3⟩ := ih seen'
        rw [llSeenAdd_eq hadd, List.length_append, List.length_singleton] at h1
        rw [llSeenAdd_eq hadd, llSeenUsed_snoc] at h2
        rw [llSeenAdd_eq hadd] at h3
        simp only [Bool.false_eq_true, if_false, llSeenAdd_eq hadd]
        refine ⟨by omega, by omega, fun x hx => ?_⟩
        rcases List.mem_cons.mp hx with rfl | hx
        · exact List.mem_cons_self ..
        · exact List.mem_cons_of_mem _ (h3 x hx)

/-- The entries the seen-set does not hold yet, once each. -/
def llUnseen : List LoadedObject → List LoadedObject → List LoadedObject
  | [], _ => []
  | o :: rest, seen =>
    if seen.contains o then llUnseen rest seen else o :: llUnseen rest (seen ++ [o])

theorem llUnseen_bounds (entries seen : List LoadedObject) :
    (llUnseen entries seen).length ≤ entries.length ∧
      llSeenUsed (llUnseen entries seen) ≤ llSeenUsed entries := by
  induction entries generalizing seen with
  | nil => exact ⟨Nat.le_refl _, Nat.le_refl _⟩
  | cons o rest ih =>
    unfold llUnseen
    split
    · obtain ⟨h1, h2⟩ := ih seen
      rw [llSeenUsed_cons, List.length_cons]
      exact ⟨by omega, by omega⟩
    · obtain ⟨h1, h2⟩ := ih (seen ++ [o])
      rw [llSeenUsed_cons, llSeenUsed_cons, List.length_cons, List.length_cons]
      exact ⟨by omega, by omega⟩

/-- The seen-set is inside its arrays. -/
def SeenWithin (seen : List LoadedObject) : Prop :=
  seen.length ≤ llSeenMax ∧ llSeenUsed seen ≤ llSeenNameBytes

/-- **`ct_ll_seen_add` takes an object exactly when the arrays have room for it.** -/
theorem llSeenAdd_iff (seen : List LoadedObject) (o : LoadedObject) :
    llSeenAdd seen o = some (seen ++ [o]) ↔ SeenWithin (seen ++ [o]) := by
  rw [SeenWithin, List.length_append, List.length_singleton, llSeenUsed_snoc]
  unfold llSeenAdd
  split
  · simp only [reduceCtorEq, false_iff]
    omega
  split
  · simp only [reduceCtorEq, false_iff]
    omega
  · simp only [true_iff]
    omega

/-- **The walk keeps the seen-set inside its arrays, and stops early exactly when what it has not
seen does not fit them.** -/
theorem llWalk_within (active entries : List LoadedObject) {seen : List LoadedObject}
    (h : SeenWithin seen) :
    SeenWithin (llWalk active entries seen).seen ∧
      ((llWalk active entries seen).overflow = false ↔
        seen.length + (llUnseen entries seen).length ≤ llSeenMax ∧
          llSeenUsed seen + llSeenUsed (llUnseen entries seen) ≤ llSeenNameBytes) := by
  induction entries generalizing seen with
  | nil => exact ⟨h, fun _ => h, fun _ => rfl⟩
  | cons o rest ih =>
    unfold llWalk llUnseen
    by_cases hseen : seen.contains o = true
    · simp only [hseen, if_true]
      exact ih h
    · simp only [hseen, Bool.false_eq_true, if_false, List.length_cons, llSeenUsed_cons]
      cases hadd : llSeenAdd seen o with
      | none =>
        have hfull : ¬ SeenWithin (seen ++ [o]) := by
          rw [← llSeenAdd_iff, hadd]
          simp
        rw [SeenWithin, List.length_append, List.length_singleton, llSeenUsed_snoc] at hfull
        refine ⟨h, fun hno => absurd hno (by simp), fun hfit => absurd ?_ hfull⟩
        exact ⟨by omega, by omega⟩
      | some seen' =>
        obtain rfl := llSeenAdd_eq hadd
        obtain ⟨hwithin, hiff⟩ := ih ((llSeenAdd_iff seen o).mp hadd)
        rw [List.length_append, List.length_singleton, llSeenUsed_snoc] at hiff
        refine ⟨hwithin, hiff.trans ⟨fun hfit => ?_, fun hfit => ?_⟩⟩
        · exact ⟨by omega, by omega⟩
        · exact ⟨by omega, by omega⟩

/-- **What a scan needs to see the whole link map**: the map fits the snapshot, and what was never
seen fits the rest of the seen-set. -/
def ScanFits (sc : LlScanner) (l : Loader) : Prop :=
  l.map.length ≤ llMaxObjects ∧ llSeenUsed (l.map.map (·.2)) ≤ llNameBytes ∧
    sc.seen.length + (llUnseen (l.map.map (·.2)) sc.seen).length ≤ llSeenMax ∧
    llSeenUsed sc.seen + llSeenUsed (llUnseen (l.map.map (·.2)) sc.seen) ≤ llSeenNameBytes

/-- **Exactly when a scan overflows.** -/
theorem libraryScan_overflow_iff {sc : LlScanner} {l : Loader} (h : SeenWithin sc.seen) :
    (libraryScan sc l).2.overflow = false ↔ ScanFits sc l := by
  have hsnap := llSnapshot_overflow_iff (l.map.map (·.2))
  rw [List.length_map] at hsnap
  have hwalk := (llWalk_within sc.active (l.map.map (·.2)) h).2
  simp only [libraryScan, Bool.or_eq_false_iff]
  constructor
  · rintro ⟨hno, hnoWalk⟩
    rw [llSnapshot_entries hno] at hnoWalk
    obtain ⟨hlen, hused⟩ := hsnap.mp hno
    exact ⟨hlen, hused, hwalk.mp hnoWalk⟩
  · rintro ⟨hlen, hused, hroom⟩
    have hno := hsnap.mpr ⟨hlen, hused⟩
    rw [llSnapshot_entries hno]
    exact ⟨hno, hwalk.mpr hroom⟩

/-! ## 6. The loader between two scans -/

/-- The counters count every load and unload. -/
structure LoaderInv (l : Loader) : Prop where
  distinct : (l.map.map (·.1)).Nodup
  bounded : ∀ p ∈ l.map, p.1 < l.adds
  count : l.map.length + l.subs = l.adds

/-- `mapped` was the link map when the counters stood at `adds` and `subs`. -/
structure SinceScan (mapped : List (Nat × LoadedObject)) (adds subs : Nat) (l : Loader) :
    Prop where
  later : adds ≤ l.adds
  old : ∀ p ∈ l.map, p.1 < adds → p ∈ mapped
  count : mapped.length + subs = adds

section Loader

variable {l : Loader} {mapped : List (Nat × LoadedObject)} {adds subs : Nat}

theorem LoaderInv.sinceNow (h : LoaderInv l) : SinceScan l.map l.adds l.subs l :=
  ⟨Nat.le_refl _, fun _ hp _ => hp, h.count⟩

theorem LoaderInv.load (h : LoaderInv l) (o : LoadedObject) : LoaderInv (l.load o) := by
  constructor
  · simp only [Loader.load, List.map_append, List.map_cons, List.map_nil]
    refine List.Nodup.append h.distinct (List.nodup_singleton _) ?_
    intro id hid hnew
    obtain ⟨p, hp, rfl⟩ := List.mem_map.mp hid
    have := h.bounded p hp
    rw [List.mem_singleton.mp hnew] at this
    exact Nat.lt_irrefl _ this
  · intro p hp
    rcases List.mem_append.mp hp with hp | hp
    · exact Nat.lt_succ_of_lt (h.bounded p hp)
    · rw [List.mem_singleton.mp hp]
      exact Nat.lt_succ_self _
  · have := h.count
    simp only [Loader.load, List.length_append, List.length_singleton]
    omega

/-- Unloading a mapped object takes exactly one entry away. -/
theorem length_unloaded {map : List (Nat × LoadedObject)} (hnodup : (map.map (·.1)).Nodup)
    {id : Nat} (hid : id ∈ map.map (·.1)) :
    (map.filter fun p => p.1 != id).length + 1 = map.length := by
  have herase : (map.filter fun p => p.1 != id).map (·.1) = (map.map (·.1)).erase id := by
    rw [hnodup.erase_eq_filter, List.filter_map]
    rfl
  have hlen := congrArg List.length herase
  rw [List.length_map, List.length_erase_of_mem hid, List.length_map] at hlen
  have : 0 < map.length := by
    obtain ⟨p, hp, _⟩ := List.mem_map.mp hid
    exact List.length_pos_of_mem hp
  omega

theorem LoaderInv.unload (h : LoaderInv l) (id : Nat) : LoaderInv (l.unload id) := by
  unfold Loader.unload
  split
  · rename_i hid
    have hsub : (l.map.filter fun p => p.1 != id).Sublist l.map := List.filter_sublist
    refine ⟨(hsub.map _).nodup h.distinct, fun p hp => h.bounded p (hsub.subset hp), ?_⟩
    have hlen := length_unloaded h.distinct hid
    have := h.count
    simp only
    omega
  · exact h

theorem SinceScan.load (h : SinceScan mapped adds subs l) (o : LoadedObject) :
    SinceScan mapped adds subs (l.load o) := by
  refine ⟨Nat.le_succ_of_le h.later, fun p hp hlt => ?_, h.count⟩
  rcases List.mem_append.mp hp with hp | hp
  · exact h.old p hp hlt
  · rw [List.mem_singleton.mp hp] at hlt
    exact absurd h.later (Nat.not_le.mpr hlt)

theorem SinceScan.unload (h : SinceScan mapped adds subs l) (id : Nat) :
    SinceScan mapped adds subs (l.unload id) := by
  unfold Loader.unload
  split
  · exact ⟨h.later, fun p hp => h.old p (List.mem_filter.mp hp).1, h.count⟩
  · exact h

/-- A list of distinct numbers of an interval that misses one is shorter than the interval. -/
theorem length_lt_of_missing {ids : List Nat} {a b id : Nat} (hnodup : ids.Nodup)
    (hrange : ∀ i ∈ ids, a ≤ i ∧ i < b) (hid : a ≤ id ∧ id < b) (hmiss : id ∉ ids) :
    ids.length < b - a := by
  have hsub : ids.toFinset ⊆ (Finset.Ico a b).erase id := by
    intro i hi
    rw [List.mem_toFinset] at hi
    rw [Finset.mem_erase, Finset.mem_Ico]
    exact ⟨fun he => hmiss (he ▸ hi), hrange i hi⟩
  have hcard := Finset.card_le_card hsub
  rw [List.toFinset_card_of_nodup hnodup,
    Finset.card_erase_of_mem (Finset.mem_Ico.mpr hid), Nat.card_Ico] at hcard
  omega

/-- **The arithmetic of a transient object**: fewer new objects are mapped than were loaded, and
something was unloaded. -/
theorem transient_counts (hl : LoaderInv l) (hs : SinceScan mapped adds subs l) {id : Nat}
    (hid : adds ≤ id ∧ id < l.adds) (hmiss : id ∉ l.map.map (·.1)) :
    (l.map.map (·.2)).countP (fun o => !(mapped.map (·.2)).contains o) < l.adds - adds ∧
      subs < l.subs := by
  -- split the link map at the load number the previous scan stood at
  have hnew : (l.map.filter fun p => decide (adds ≤ p.1)).length < l.adds - adds := by
    have hsub : (l.map.filter fun p => decide (adds ≤ p.1)).Sublist l.map := List.filter_sublist
    rw [← List.length_map (f := fun p : Nat × LoadedObject => p.1)]
    refine length_lt_of_missing ((hsub.map _).nodup hl.distinct) (fun i hi => ?_) hid
      fun hmem => hmiss ((hsub.map _).subset hmem)
    obtain ⟨p, hp, rfl⟩ := List.mem_map.mp hi
    obtain ⟨hp, hle⟩ := List.mem_filter.mp hp
    exact ⟨of_decide_eq_true hle, hl.bounded p hp⟩
  have hold : (l.map.filter fun p => !decide (adds ≤ p.1)).length ≤ mapped.length := by
    have hnodup : (l.map.filter fun p => !decide (adds ≤ p.1)).Nodup :=
      (List.Nodup.of_map _ hl.distinct).filter _
    refine (List.subperm_of_subset hnodup fun p hp => ?_).length_le
    obtain ⟨hp, hlt⟩ := List.mem_filter.mp hp
    exact hs.old p hp (by simpa using hlt)
  have hsplit : (l.map.filter fun p => decide (adds ≤ p.1)).length +
      (l.map.filter fun p => !decide (adds ≤ p.1)).length = l.map.length :=
    (List.length_eq_length_filter_add _).symm
  have hcount : (l.map.map (·.2)).countP (fun o => !(mapped.map (·.2)).contains o) ≤
      (l.map.filter fun p => decide (adds ≤ p.1)).length := by
    rw [List.countP_map, ← List.countP_eq_length_filter]
    refine List.countP_mono_left fun p hp hnot => ?_
    rw [decide_eq_true_eq]
    by_contra hlt
    have hmem : p.2 ∈ mapped.map (·.2) := List.mem_map_of_mem (hs.old p hp (by omega))
    simp only [Function.comp_apply, Bool.not_eq_true', List.contains_iff_mem.mpr hmem] at hnot
    exact absurd hnot (by simp)
  have h1 := hl.count
  have h2 := hs.count
  omega

end Loader

/-! ## 7. What one scan proves -/

section Scan

variable {sc : LlScanner} {l : Loader} {reason : ScanReason}

/-- What a scan without a loss has checked. -/
theorem coverageLoss_eq_none {rep : LlReport} (h : coverageLoss reason rep = none) :
    (∀ o ∈ rep.sunk, sinkFails o = false) ∧ rep.overflow = false ∧ rep.countersValid = true ∧
      ¬ (rep.newlyActive < rep.performed ∧ 0 < rep.removed) := by
  simp only [coverageLoss] at h
  split at h
  · exact absurd h (by simp)
  rename_i hsink
  split at h
  · exact absurd h (by simp)
  rename_i hover
  split at h
  · exact absurd h (by simp)
  rename_i hvalid
  split at h
  · exact absurd h (by simp)
  rename_i hcount
  refine ⟨fun o ho => ?_, by simpa using hover, by simpa using hvalid, by simpa using hcount⟩
  cases hf : sinkFails o with
  | false => rfl
  | true => exact absurd (List.any_eq_true.mpr ⟨o, ho, hf⟩) hsink

/-- A scan that did not overflow saw the whole link map. -/
theorem libraryScan_whole (h : (libraryScan sc l).2.overflow = false) :
    WalkSpec sc.active (l.map.map (·.2)) sc.seen (llWalk sc.active (l.map.map (·.2)) sc.seen) ∧
      (libraryScan sc l).1.seen = (llWalk sc.active (l.map.map (·.2)) sc.seen).seen ∧
      (libraryScan sc l).2.sunk = (llWalk sc.active (l.map.map (·.2)) sc.seen).sunk ∧
      (libraryScan sc l).2.newlyActive =
        (llWalk sc.active (l.map.map (·.2)) sc.seen).newlyActive ∧
      (libraryScan sc l).1.active = l.map.map (·.2) := by
  simp only [libraryScan, Bool.or_eq_false_iff] at h
  have hentries := llSnapshot_entries h.1
  have hwalk := h.2
  rw [hentries] at hwalk
  refine ⟨walkSpec _ _ _ hwalk, ?_⟩
  simp only [libraryScan, hentries, h.1, hwalk, Bool.or_self, Bool.false_eq_true, if_false,
    and_self]

theorem libraryScan_counters (hadds : sc.lastAdds ≤ l.adds) (hsubs : sc.lastSubs ≤ l.subs)
    (hvalid : (libraryScan sc l).2.countersValid = true) :
    (libraryScan sc l).2.performed = l.adds - sc.lastAdds ∧
      (libraryScan sc l).2.removed = l.subs - sc.lastSubs ∧
      (libraryScan sc l).1.lastAdds = l.adds ∧ (libraryScan sc l).1.lastSubs = l.subs := by
  have hv : (!l.map.isEmpty) = true := hvalid
  simp only [libraryScan, hv, hadds, hsubs, decide_true, Bool.and_self, if_true, and_self]

/-- **A transient object makes the closing scan report a loss**, if the snapshot it compares with
is the link map of the scan before. -/
theorem scan_detects {mapped : List (Nat × LoadedObject)} {adds subs : Nat} (hl : LoaderInv l)
    (hs : SinceScan mapped adds subs l) (hactive : sc.active = mapped.map (·.2))
    (hadds : sc.lastAdds ≤ adds) (hsubs : sc.lastSubs ≤ subs) {id : Nat}
    (hid : adds ≤ id ∧ id < l.adds) (hmiss : id ∉ l.map.map (·.1)) :
    coverageLoss reason (libraryScan sc l).2 ≠ none := by
  intro hnone
  obtain ⟨_, hover, hvalid, hcount⟩ := coverageLoss_eq_none hnone
  obtain ⟨hwalk, _, _, hnew, _⟩ := libraryScan_whole hover
  obtain ⟨hlt, hsub⟩ := transient_counts hl hs hid hmiss
  have hlater := hs.later
  obtain ⟨hperf, hrem, _⟩ := libraryScan_counters (by omega) (by omega) hvalid
  apply hcount
  rw [hnew, hwalk.counted, hactive, hperf, hrem]
  exact ⟨by omega, by omega⟩

end Scan

/-! ## 8. Every run -/

/-- Some scan emitted an event loss. -/
def LibraryState.Lost (st : LibraryState) : Prop :=
  ∃ detail result, .eventLoss detail result ∈ st.emitted

/-- What holds while no scan has emitted a loss. -/
structure LibraryCovered (st : LibraryState) : Prop where
  /-- the active snapshot is the link map of the previous scan -/
  since : ∃ mapped, SinceScan mapped st.scanner.lastAdds st.scanner.lastSubs st.loader ∧
    st.scanner.active = mapped.map (·.2)
  seenSunk : ∀ o ∈ st.scanner.seen, o ∈ st.sunk
  named : ∀ o ∈ st.sunk, sinkFails o = false
  covered : ∀ p ∈ st.everMapped, p.1 < st.scanner.lastAdds → p.2 ∈ st.scanner.seen

/-- **The invariant of every run.** -/
structure LibraryInv (st : LibraryState) : Prop where
  loader : LoaderInv st.loader
  mapped : ∀ p ∈ st.loader.map, p ∈ st.everMapped
  numbered : ∀ p ∈ st.everMapped, p.1 < st.loader.adds
  unique : (st.everMapped.map (·.1)).Nodup
  behind : st.scanner.lastAdds ≤ st.loader.adds ∧ st.scanner.lastSubs ≤ st.loader.subs
  coverage : st.Lost ∨ LibraryCovered st

theorem libraryInv_start : LibraryInv {} := by
  refine ⟨⟨by simp, by simp, rfl⟩, by simp, by simp, by simp, by simp, .inr ?_⟩
  exact ⟨⟨[], ⟨Nat.le_refl _, by simp, rfl⟩, rfl⟩, by simp, by simp, by simp⟩

theorem LibraryInv.load {st : LibraryState} (h : LibraryInv st) (o : LoadedObject) :
    LibraryInv (st.step (.load o)) := by
  refine ⟨h.loader.load o, fun p hp => ?_, fun p hp => ?_, ?_, ?_, ?_⟩
  · rcases List.mem_append.mp hp with hp | hp
    · exact List.mem_append_left _ (h.mapped p hp)
    · exact List.mem_append_right _ hp
  · rcases List.mem_append.mp hp with hp | hp
    · exact Nat.lt_succ_of_lt (h.numbered p hp)
    · rw [List.mem_singleton.mp hp]
      exact Nat.lt_succ_self _
  · simp only [LibraryState.step, List.map_append, List.map_cons, List.map_nil]
    refine List.Nodup.append h.unique (List.nodup_singleton _) fun id hid hnew => ?_
    obtain ⟨p, hp, rfl⟩ := List.mem_map.mp hid
    have := h.numbered p hp
    rw [List.mem_singleton.mp hnew] at this
    exact Nat.lt_irrefl _ this
  · exact ⟨Nat.le_succ_of_le h.behind.1, h.behind.2⟩
  · refine h.coverage.imp (fun hlost => hlost) fun hc => ?_
    obtain ⟨mapped, hsince, hactive⟩ := hc.since
    refine ⟨⟨mapped, hsince.load o, hactive⟩, hc.seenSunk, hc.named, fun p hp hlt => ?_⟩
    rcases List.mem_append.mp hp with hp | hp
    · exact hc.covered p hp hlt
    · rw [List.mem_singleton.mp hp] at hlt
      exact absurd h.behind.1 (Nat.not_le.mpr hlt)

theorem Loader.unload_facts (l : Loader) (id : Nat) :
    (l.unload id).adds = l.adds ∧ l.subs ≤ (l.unload id).subs ∧
      ∀ p ∈ (l.unload id).map, p ∈ l.map := by
  unfold Loader.unload
  split
  · exact ⟨rfl, Nat.le_succ _, fun p hp => (List.mem_filter.mp hp).1⟩
  · exact ⟨rfl, Nat.le_refl _, fun p hp => hp⟩

theorem LibraryInv.unload {st : LibraryState} (h : LibraryInv st) (id : Nat) :
    LibraryInv (st.step (.unload id)) := by
  obtain ⟨hadds, hsubs, hmap⟩ := st.loader.unload_facts id
  refine ⟨h.loader.unload id, fun p hp => h.mapped p (hmap p hp), fun p hp => ?_, h.unique, ?_, ?_⟩
  · simp only [LibraryState.step, hadds]
    exact h.numbered p hp
  · simp only [LibraryState.step, hadds]
    exact ⟨h.behind.1, Nat.le_trans h.behind.2 hsubs⟩
  · refine h.coverage.imp (fun hlost => hlost) fun hc => ?_
    obtain ⟨mapped, hsince, hactive⟩ := hc.since
    exact ⟨⟨mapped, hsince.unload id, hactive⟩, hc.seenSunk, hc.named, hc.covered⟩

theorem libraryScan_behind {sc : LlScanner} {l : Loader}
    (h : sc.lastAdds ≤ l.adds ∧ sc.lastSubs ≤ l.subs) :
    (libraryScan sc l).1.lastAdds ≤ l.adds ∧ (libraryScan sc l).1.lastSubs ≤ l.subs := by
  simp only [libraryScan]
  constructor
  · split
    · exact Nat.le_refl _
    · exact h.1
  · split
    · exact Nat.le_refl _
    · exact h.2

/-- **A scan either emits a loss or has covered everything that was ever mapped.** -/
theorem LibraryInv.scan {st : LibraryState} (h : LibraryInv st) (reason : ScanReason) :
    LibraryInv (st.scan reason) ∧ ((st.scan reason).Lost ∨
      (LibraryCovered (st.scan reason) ∧
        (st.scan reason).scanner.lastAdds = st.loader.adds)) := by
  have hlost : st.Lost → (st.scan reason).Lost := by
    rintro ⟨detail, result, hmem⟩
    exact ⟨detail, result, List.mem_append_left _ (List.mem_append_left _ hmem)⟩
  have hmain : (st.scan reason).Lost ∨ (LibraryCovered (st.scan reason) ∧
      (st.scan reason).scanner.lastAdds = st.loader.adds) := by
    rcases h.coverage with hl | hc
    · exact .inl (hlost hl)
    cases hloss : coverageLoss reason (libraryScan st.scanner st.loader).2 with
    | some detail =>
      refine .inl ⟨detail, 0, List.mem_append_right _ ?_⟩
      rw [hloss]
      exact List.mem_singleton_self _
    | none =>
      refine .inr ?_
      obtain ⟨hnamed, hover, hvalid, _⟩ := coverageLoss_eq_none hloss
      obtain ⟨hwalk, hseen, hsunk, _, hactive⟩ := libraryScan_whole hover
      obtain ⟨_, _, hadds, hsubs⟩ := libraryScan_counters h.behind.1 h.behind.2 hvalid
      obtain ⟨mapped, hsince, hold⟩ := hc.since
      refine ⟨⟨⟨st.loader.map, ?_, hactive⟩, fun o ho => ?_, fun o ho => ?_, fun p hp hlt => ?_⟩,
        hadds⟩
      · simp only [LibraryState.scan, hadds, hsubs]
        exact h.loader.sinceNow
      · simp only [LibraryState.scan, hseen, hsunk, List.mem_append] at ho ⊢
        exact (hwalk.sunk o ho).imp (hc.seenSunk o) fun h => h
      · rcases List.mem_append.mp ho with ho | ho
        · exact hc.named o ho
        · exact hnamed o ho
      · simp only [LibraryState.scan, hseen]
        by_cases hpast : p.1 < st.scanner.lastAdds
        · exact hwalk.keeps _ (hc.covered p hp hpast)
        · -- loaded since the previous scan, so it is mapped now or the scan would have lost
          have hmem : p.1 ∈ st.loader.map.map (·.1) := by
            by_contra hmiss
            exact scan_detects h.loader hsince hold (Nat.le_refl _) (Nat.le_refl _)
              ⟨Nat.not_lt.mp hpast, h.numbered p hp⟩ hmiss hloss
          obtain ⟨q, hq, hqp⟩ := List.mem_map.mp hmem
          have hsame : q = p := List.inj_on_of_nodup_map h.unique (h.mapped q hq) hp hqp
          exact hwalk.covers _ (List.mem_map_of_mem (hsame ▸ hq))
  refine ⟨⟨h.loader, h.mapped, h.numbered, h.unique, libraryScan_behind h.behind, ?_⟩, hmain⟩
  exact hmain.imp (fun h => h) fun h => h.1

theorem LibraryInv.step {st : LibraryState} (h : LibraryInv st) (op : LibraryOp) :
    LibraryInv (st.step op) := by
  cases op with
  | load o => exact h.load o
  | unload id => exact h.unload id
  | scan reason => exact (h.scan reason).1

/-- **Every run keeps the invariant.** -/
theorem LibraryInv.run {st : LibraryState} (h : LibraryInv st) (ops : List LibraryOp) :
    LibraryInv (st.run ops) := by
  induction ops generalizing st with
  | nil => exact h
  | cons op rest ih => exact ih (h.step op)

/-- **No run leaves the seen-set's arrays.** -/
theorem seenWithin_run (ops : List LibraryOp) {st : LibraryState}
    (h : SeenWithin st.scanner.seen) : SeenWithin (st.run ops).scanner.seen := by
  induction ops generalizing st with
  | nil => exact h
  | cons op rest ih =>
    refine ih ?_
    cases op with
    | load o => exact h
    | unload id => exact h
    | scan reason => exact (llWalk_within st.scanner.active _ h).1

/-! ## 9. Coverage -/

/-- The operation is no scan. -/
def LibraryOp.isLoaderOp : LibraryOp → Bool
  | scan _ => false
  | _ => true

/-- Between two scans the scanner stands still and the loader remembers the opening one. -/
theorem run_between {mapped : List (Nat × LoadedObject)} {adds subs : Nat}
    (ops : List LibraryOp) (hops : ∀ op ∈ ops, op.isLoaderOp = true) :
    ∀ st : LibraryState, SinceScan mapped adds subs st.loader →
      (st.run ops).scanner = st.scanner ∧ SinceScan mapped adds subs (st.run ops).loader := by
  induction ops with
  | nil => exact fun st h => ⟨rfl, h⟩
  | cons op rest ih =>
    intro st h
    have hrest := ih fun op' h' => hops op' (List.mem_cons_of_mem _ h')
    cases op with
    | load o => exact hrest (st.step (.load o)) (h.load o)
    | unload id => exact hrest (st.step (.unload id)) (h.unload id)
    | scan reason => exact absurd (hops _ (List.mem_cons_self ..)) (by simp [LibraryOp.isLoaderOp])

/-- What the sink does not flag is absolute, the main executable, or the kernel's object. -/
theorem absolute_of_named {o : LoadedObject} (h : sinkFails o = false) (hname : o.name ≠ [])
    (hvdso : isVdso o.name = false) : startsWith o.name (str "/") = true := by
  by_contra habs
  have hrel : startsWith o.name (str "/") = false := by simpa using habs
  have hne : o.name.isEmpty = false := by simpa using hname
  simp [sinkFails, libraryLoadRecordablePath, hrel, hne, hvdso] at h

/-- **Coverage is proved.**  In every run that ends with a scan, every object that was ever mapped
was passed to the sink under an absolute path or some scan emitted a loss; and an object that
came and went between two scans makes the closing one emit a loss, if the opening one had room for
the link map. -/
theorem libraryCoverage (ops : List LibraryOp) (reason : ScanReason) :
    (∀ p ∈ ((LibraryState.run {} ops).scan reason).everMapped, p.2.name ≠ [] →
      isVdso p.2.name = false →
      (p.2 ∈ ((LibraryState.run {} ops).scan reason).sunk ∧
        startsWith p.2.name (str "/") = true) ∨ ((LibraryState.run {} ops).scan reason).Lost) ∧
    (∀ (between : List LibraryOp) (closing : ScanReason) (id : Nat),
      (∀ op ∈ between, op.isLoaderOp = true) →
      ScanFits (LibraryState.run {} ops).scanner (LibraryState.run {} ops).loader →
      (LibraryState.run {} ops).loader.adds ≤ id →
      id < (((LibraryState.run {} ops).scan reason).run between).loader.adds →
      id ∉ (((LibraryState.run {} ops).scan reason).run between).loader.map.map (·.1) →
      ∃ detail, (coverageLoss closing
        (libraryScan (((LibraryState.run {} ops).scan reason).run between).scanner
          (((LibraryState.run {} ops).scan reason).run between).loader).2) = some detail) := by
  have hinv := libraryInv_start.run ops
  obtain ⟨hscan, hmain⟩ := hinv.scan reason
  constructor
  · intro p hp hname hvdso
    rcases hmain with hlost | ⟨hc, hadds⟩
    · exact .inr hlost
    · have hseen := hc.covered p hp (by rw [hadds]; exact hscan.numbered p hp)
      have hsunk := hc.seenSunk _ hseen
      exact .inl ⟨hsunk, absolute_of_named (hc.named _ hsunk) hname hvdso⟩
  · intro between closing id hops hfits hlow hhigh hmiss
    have hwithin : SeenWithin (LibraryState.run {} ops).scanner.seen :=
      seenWithin_run ops ⟨Nat.zero_le _, Nat.zero_le _⟩
    obtain ⟨hscanner, hsince⟩ := run_between between hops ((LibraryState.run {} ops).scan reason)
      hinv.loader.sinceNow
    have hactive := (libraryScan_whole ((libraryScan_overflow_iff hwithin).mpr hfits)).2.2.2.2
    have hbehind := libraryScan_behind hinv.behind
    refine Option.ne_none_iff_exists'.mp (scan_detects (hscan.run between).loader hsince ?_ ?_ ?_
      ⟨hlow, hhigh⟩ hmiss)
    · rw [hscanner]
      exact hactive
    · rw [hscanner]
      exact hbehind.1
    · rw [hscanner]
      exact hbehind.2

/-- The executable and its C library. -/
def startupLoads : List LibraryOp :=
  [.load ⟨0x400000, []⟩, .load ⟨0x7f0000000000, str "/lib/libc.so.6"⟩]

/-- A plugin that comes and goes. -/
def pluginLoads : List LibraryOp := [.load ⟨0x7f0000400000, str "/opt/plugin.so"⟩, .unload 2]

/-- The first scan passes both objects to the sink; the next one notices the plugin. -/
theorem libraryCoverage_plugin :
    ((LibraryState.run {} startupLoads).scan .startupClosure).everMapped.length = 2 ∧
    ((⟨0x7f0000000000, str "/lib/libc.so.6"⟩ ∈
        ((LibraryState.run {} startupLoads).scan .startupClosure).sunk ∧
        startsWith (str "/lib/libc.so.6") (str "/") = true) ∨
      ((LibraryState.run {} startupLoads).scan .startupClosure).Lost) ∧
    ∃ detail, (coverageLoss .preDlopen (libraryScan
      (((LibraryState.run {} startupLoads).scan .startupClosure).run pluginLoads).scanner
      (((LibraryState.run {} startupLoads).scan .startupClosure).run pluginLoads).loader).2) =
        some detail := by
  obtain ⟨hsunk, hlost⟩ := libraryCoverage startupLoads .startupClosure
  refine ⟨by decide, hsunk (1, ⟨0x7f0000000000, str "/lib/libc.so.6"⟩) (by decide) (by decide)
    (by decide), ?_⟩
  refine hlost pluginLoads .preDlopen 2 (by decide) ?_ (by decide) (by decide) (by decide)
  exact ⟨by decide, by decide, by decide, by decide⟩
/-! ## 10. After an overflow

The executable and 512 libraries are one object too many for a snapshot.  The scan says so and
moves its counters on, but compares the next scan with the empty snapshot it started from.  Every
library of the crowd then counts as newly active, and an object that comes and goes meanwhile is
outnumbered. -/

def crowd : List LoadedObject :=
  ⟨0, []⟩ :: (List.range 512).map fun i =>
    ⟨UInt64.ofNat (4096 * (i + 1)), str "/l/" ++ decimal (UInt64.ofNat i) ++ str ".so"⟩

def transientObject : LoadedObject := ⟨0x7f0000000000, str "/lib/libnss_files.so"⟩

/-- One library of the crowd is unloaded, and another object comes and goes. -/
def comeAndGo : List LibraryOp := [.unload 1, .load transientObject, .unload 513]

/-- A loader that has loaded these objects and nothing else. -/
def Loader.ofLoads (objects : List LoadedObject) : Loader :=
  { map := objects.zipIdx.map fun p => (p.2, p.1), adds := objects.length }

theorem run_loads (objects : List LoadedObject) : ∀ st : LibraryState,
    (st.run (objects.map .load)).scanner = st.scanner ∧
      (st.run (objects.map .load)).loader =
        { map := st.loader.map ++ objects.zipIdx.map fun p => (st.loader.adds + p.2, p.1)
          adds := st.loader.adds + objects.length
          subs := st.loader.subs } := by
  induction objects with
  | nil => intro st; simp [LibraryState.run]
  | cons o rest ih =>
    intro st
    obtain ⟨hscanner, hloader⟩ := ih (st.step (.load o))
    rw [List.map_cons, LibraryState.run, List.foldl_cons, ← LibraryState.run]
    refine ⟨hscanner, ?_⟩
    rw [hloader]
    simp only [LibraryState.step, Loader.load, List.zipIdx_cons', List.map_cons, List.map_map,
      List.append_assoc, List.singleton_append, List.length_cons, Loader.mk.injEq, and_true]
    refine ⟨?_, by omega⟩
    congr 2
    refine List.map_congr_left fun p _ => ?_
    simp only [Function.comp_apply, Prod.map_fst, Prod.map_snd, id_eq]
    congr 1
    omega

theorem run_loads_start (objects : List LoadedObject) :
    (LibraryState.run {} (objects.map .load)).scanner = {} ∧
      (LibraryState.run {} (objects.map .load)).loader = Loader.ofLoads objects := by
  obtain ⟨hscanner, hloader⟩ := run_loads objects {}
  refine ⟨hscanner, ?_⟩
  rw [hloader]
  simp only [Loader.ofLoads, List.nil_append, Nat.zero_add]

/-- The seen-set grows by one snapshot at most. -/
theorem libraryScan_seen (sc : LlScanner) (l : Loader) :
    (libraryScan sc l).1.seen.length ≤ sc.seen.length + llMaxObjects ∧
      llSeenUsed (libraryScan sc l).1.seen ≤ llSeenUsed sc.seen + llNameBytes := by
  obtain ⟨hlen, hused⟩ := llSnapshot_bounds (l.map.map (·.2))
  obtain ⟨hseen, hseenUsed, _⟩ :=
    llWalk_bounds sc.active (llSnapshot (l.map.map (·.2))).entries sc.seen
  exact ⟨Nat.le_trans hseen (Nat.add_le_add_left hlen _),
    Nat.le_trans hseenUsed (Nat.add_le_add_left hused _)⟩

/-- **A scan compared with the empty snapshot counts every mapped object as newly active**, so
it proves coverage whatever came and went, as long as everything fits. -/
theorem coverageLoss_of_emptyActive {sc : LlScanner} {l : Loader} (reason : ScanReason)
    (hactive : sc.active = []) (hsome : l.map ≠ [])
    (hbehind : sc.lastAdds ≤ l.adds ∧ sc.lastSubs ≤ l.subs)
    (hsnap : l.map.length ≤ llMaxObjects ∧ llSeenUsed (l.map.map (·.2)) ≤ llNameBytes)
    (hseen : sc.seen.length + l.map.length ≤ llSeenMax ∧
      llSeenUsed sc.seen + llSeenUsed (l.map.map (·.2)) ≤ llSeenNameBytes)
    (hnamed : ∀ p ∈ l.map, sinkFails p.2 = false)
    (hadds : l.adds - sc.lastAdds ≤ l.map.length) :
    coverageLoss reason (libraryScan sc l).2 = none := by
  obtain ⟨_, _, hsub⟩ := llWalk_bounds sc.active (l.map.map (·.2)) sc.seen
  obtain ⟨hfew, hshort⟩ := llUnseen_bounds (l.map.map (·.2)) sc.seen
  rw [List.length_map] at hfew
  have hover : (libraryScan sc l).2.overflow = false := by
    refine (libraryScan_overflow_iff ⟨by omega, by omega⟩).mpr ⟨hsnap.1, hsnap.2, ?_, ?_⟩
    · omega
    · omega
  have hvalid : (libraryScan sc l).2.countersValid = true := by
    simp only [libraryScan, Bool.not_eq_true', List.isEmpty_eq_false_iff]
    exact hsome
  obtain ⟨hspec, _, hsunk, hnew, _⟩ := libraryScan_whole hover
  obtain ⟨hperf, _⟩ := libraryScan_counters hbehind.1 hbehind.2 hvalid
  have hall : (libraryScan sc l).2.newlyActive = l.map.length := by
    rw [hnew, hspec.counted, hactive, List.countP_eq_length.mpr (by simp), List.length_map]
  have hsink : (libraryScan sc l).2.sunk.any sinkFails = false := by
    rw [hsunk, List.any_eq_false]
    intro o ho
    obtain ⟨p, hp, rfl⟩ := List.mem_map.mp (hsub o ho)
    rw [hnamed p hp]
    exact Bool.false_ne_true
  have hcount : ¬ (libraryScan sc l).2.newlyActive < (libraryScan sc l).2.performed := by
    rw [hall, hperf]
    omega
  simp only [coverageLoss, hsink, hover, hvalid, hcount, Bool.false_eq_true, if_false,
    Bool.not_true, decide_false, Bool.false_and]

theorem llSeenUsed_le {objects : List LoadedObject} {n : Nat}
    (h : ∀ o ∈ objects, o.name.length ≤ n) : llSeenUsed objects ≤ objects.length * (n + 1) := by
  induction objects with
  | nil => exact Nat.zero_le _
  | cons o rest ih =>
    have hrest := ih fun o' ho' => h o' (List.mem_cons_of_mem _ ho')
    have ho := h o (List.mem_cons_self ..)
    rw [llSeenUsed_cons, List.length_cons, Nat.succ_mul]
    omega

theorem LibraryState.scan_loader (st : LibraryState) (reason : ScanReason) :
    (st.scan reason).loader = st.loader := rfl

theorem LibraryState.scan_scanner (st : LibraryState) (reason : ScanReason) :
    (st.scan reason).scanner = (libraryScan st.scanner st.loader).1 := rfl

theorem comeAndGo_loader (st : LibraryState) :
    (st.run comeAndGo).loader = ((st.loader.unload 1).load transientObject).unload 513 := rfl

theorem comeAndGo_scanner (st : LibraryState) : (st.run comeAndGo).scanner = st.scanner := rfl

/-- The loader after `comeAndGo`. -/
def crowdLoaderAfter : Loader :=
  (((Loader.ofLoads crowd).unload 1).load transientObject).unload 513

theorem crowdLoaderAfter_facts :
    crowdLoaderAfter.map.length = 512 ∧ crowdLoaderAfter.adds = 514 ∧
      crowdLoaderAfter.subs = 2 ∧ 513 ∉ crowdLoaderAfter.map.map (·.1) ∧
      ∀ p ∈ crowdLoaderAfter.map, sinkFails p.2 = false ∧ p.2.name.length ≤ 20 := by
  decide +kernel

theorem crowd_length : crowd.length = 513 := by
  rw [crowd, List.length_cons, List.length_map, List.length_range]

/-- After the scan of the crowd the snapshot is still empty, and the counters are the crowd's. -/
theorem crowd_scanned :
    (libraryScan {} (Loader.ofLoads crowd)).1.active = [] ∧
      (libraryScan {} (Loader.ofLoads crowd)).1.lastAdds = 513 ∧
      (libraryScan {} (Loader.ofLoads crowd)).1.lastSubs = 0 := by
  have hlen : (Loader.ofLoads crowd).map.length = 513 := by
    rw [Loader.ofLoads, List.length_map, List.length_zipIdx, crowd_length]
  have hover : (llSnapshot ((Loader.ofLoads crowd).map.map (·.2))).overflow = true := by
    by_contra hno
    have hfit := ((llSnapshot_overflow_iff _).mp (Bool.eq_false_iff.mpr hno)).1
    rw [List.length_map, hlen] at hfit
    exact absurd hfit (by decide)
  have hvalid : (libraryScan {} (Loader.ofLoads crowd)).2.countersValid = true := by
    simp only [libraryScan, Bool.not_eq_true', List.isEmpty_eq_false_iff]
    intro hnil
    rw [hnil] at hlen
    exact absurd hlen (by decide)
  obtain ⟨_, _, hadds, hsubs⟩ := libraryScan_counters (Nat.zero_le _) (Nat.zero_le _) hvalid
  refine ⟨?_, ?_, ?_⟩
  · simp only [libraryScan, hover, Bool.true_or, if_true]
  · rw [hadds, Loader.ofLoads, crowd_length]
  · rw [hsubs, Loader.ofLoads]

/-- **After an overflow a transient object goes unnoticed**: no scan after its load emits a
loss. -/
theorem libraryCoverage_refuted :
    ¬ ∀ (ops : List LibraryOp) (reason : ScanReason) (between : List LibraryOp)
        (closing : ScanReason) (id : Nat),
      (∀ op ∈ between, op.isLoaderOp = true) →
      (LibraryState.run {} ops).loader.adds ≤ id →
      id < (((LibraryState.run {} ops).scan reason).run between).loader.adds →
      id ∉ (((LibraryState.run {} ops).scan reason).run between).loader.map.map (·.1) →
      ∃ detail, (coverageLoss closing
        (libraryScan (((LibraryState.run {} ops).scan reason).run between).scanner
          (((LibraryState.run {} ops).scan reason).run between).loader).2) = some detail := by
  intro h
  obtain ⟨hscanner, hloader⟩ := run_loads_start crowd
  have hafter : (((LibraryState.run {} (crowd.map .load)).scan .startupClosure).run
      comeAndGo).loader = crowdLoaderAfter := by
    rw [comeAndGo_loader, LibraryState.scan_loader, hloader, crowdLoaderAfter]
  have hkept : (((LibraryState.run {} (crowd.map .load)).scan .startupClosure).run
      comeAndGo).scanner = (libraryScan {} (Loader.ofLoads crowd)).1 := by
    rw [comeAndGo_scanner, LibraryState.scan_scanner, hscanner, hloader]
  obtain ⟨hlen, hadds, hsubs, hmiss, hnames⟩ := crowdLoaderAfter_facts
  obtain ⟨hactive, hlastAdds, hlastSubs⟩ := crowd_scanned
  obtain ⟨hseen, hseenUsed⟩ := libraryScan_seen {} (Loader.ofLoads crowd)
  rw [List.length_nil, Nat.zero_add] at hseen
  rw [show llSeenUsed [] = 0 from rfl, Nat.zero_add] at hseenUsed
  have hused : llSeenUsed (crowdLoaderAfter.map.map (·.2)) ≤ 512 * 21 := by
    have hshort : ∀ o ∈ crowdLoaderAfter.map.map (·.2), o.name.length ≤ 20 := by
      intro o ho
      obtain ⟨p, hp, rfl⟩ := List.mem_map.mp ho
      exact (hnames p hp).2
    have hle := llSeenUsed_le hshort
    rwa [List.length_map, hlen] at hle
  have hnone : coverageLoss .preDlopen
      (libraryScan (libraryScan {} (Loader.ofLoads crowd)).1 crowdLoaderAfter).2 = none := by
    simp only [llMaxObjects, llNameBytes] at hseen hseenUsed
    refine coverageLoss_of_emptyActive _ hactive ?_ ?_ ?_ ?_ (fun p hp => (hnames p hp).1) ?_
    · intro hnil
      rw [hnil] at hlen
      exact absurd hlen (by decide)
    · omega
    · simp only [llMaxObjects, llNameBytes]
      omega
    · simp only [llSeenMax, llSeenNameBytes]
      omega
    · omega
  obtain ⟨detail, hdetail⟩ := h (crowd.map .load) .startupClosure comeAndGo .preDlopen 513
    (by decide) (by rw [hloader, Loader.ofLoads, crowd_length]) (by rw [hafter, hadds]; decide)
    (by rw [hafter]; exact hmiss)
  rw [hafter, hkept, hnone] at hdetail
  exact absurd hdetail (by simp)

end IoMon
