/-
# The shim's fixed tables

`linux_pod_tables.nim` keeps the shim's shared state in fixed arrays with `malloc`ed strings.  Two
of them use open addressing:

  * the pointer map (`DIR*` and `FILE*` to path), with deletion by backward shift.  It refines a
    finite map (`ptrMap_refines_map`), whatever the pointers collide on;
  * the set of observed inputs, which only grows and decides whether a record is a repeat.  Its
    comparison `cstrEq` tests the terminator of the KEY and not the one of the stored string, so a
    stored string that continues the key counts as the key.  `observed_never_suppresses_iff` says
    on which calls that shows.

The `count` fields are written and never read, and are left out.  `malloc` may fail: each call that
copies a string says whether its allocation succeeded.
-/
import Mathlib.Data.List.GetD
import IoMon.Lib.OpenAddressing
import IoMon.Lib.Strings

namespace IoMon

open ByteText OpenAddressing

/-! ## 1. C strings -/

/-- A NUL-terminated string: the bytes before the terminator, none of them NUL. -/
structure CString where
  bytes : NimStr
  noNul : (0 : UInt8) ∉ bytes
  deriving DecidableEq

namespace CString

/-- `s[i]`; at the length it is the terminator. -/
def byteAt (s : CString) (i : Nat) : UInt8 := s.bytes.getD i 0

/-- `while s[n] != '\0': inc n`. -/
def length (s : CString) : Nat := s.bytes.length

theorem byteAt_ne_zero {s : CString} {i : Nat} (hi : i < s.length) : s.byteAt i ≠ 0 := by
  intro h
  apply s.noNul
  rw [byteAt, List.getD_eq_getElem s.bytes 0 hi] at h
  exact h ▸ List.getElem_mem hi

theorem byteAt_length (s : CString) : s.byteAt s.length = 0 := by
  simp [byteAt, length]

end CString

/-! ## 2. The pointer map -/

def ptrMapCap : Nat := 16384

def ptrMapMask : UInt64 := 16383

/-- `PtrPathMap`: the slots, each with a key and the copy of its path (`nil` after a failed
allocation). -/
abbrev PtrPathMap := Slots ptrMapCap (UInt64 × Option CString)

def emptyPtrMap : PtrPathMap := fun _ => none

/-- `int(key and uint(ptrMapMask))`. -/
def ptrHome (key : UInt64) : Fin ptrMapCap :=
  ⟨(key &&& ptrMapMask).toNat, by
    rw [UInt64.toNat_and]
    exact Nat.lt_of_le_of_lt Nat.and_le_right (by decide)⟩

/-- `m.slots[idx].used and m.slots[idx].key == key`. -/
def slotHasKey (m : PtrPathMap) (idx : Fin ptrMapCap) (key : UInt64) : Bool :=
  (m idx).any (isKey key)

/-- The loop at the head of `ptrMapSetLocked` and `ptrMapDelLocked`. -/
def ptrProbe (m : PtrPathMap) (key : UInt64) : Fin ptrMapCap × Nat :=
  probe (isKey key) m ptrMapCap (ptrHome key)

def ptrMapSetLocked (m : PtrPathMap) (key : UInt64) (path : CString) (allocated : Bool) :
    PtrPathMap :=
  let (idx, left) := ptrProbe m key
  let copy := if allocated then some path else none
  if slotHasKey m idx key then Function.update m idx (some (key, copy))
  else if left = 0 then m
  else Function.update m idx (some (key, copy))

/-- The branch of `ptrMapSetLocked` that drops the insert. -/
def ptrMapSetRefused (m : PtrPathMap) (key : UInt64) : Bool :=
  let (idx, left) := ptrProbe m key
  !slotHasKey m idx key && left == 0

/-- `none` when the back-shift loop has not ended within `fuel` iterations. -/
def ptrMapDelLocked (fuel : Nat) (m : PtrPathMap) (key : UInt64) : Option PtrPathMap :=
  let (idx, _) := ptrProbe m key
  if slotHasKey m idx key then backShift ptrHome fuel (Function.update m idx none) idx idx
  else some m

/-- The loop of `ptrMapGetLocked`; a `nil` path reads as the empty string. -/
def ptrMapGetFrom (m : PtrPathMap) (key : UInt64) : Nat → Fin ptrMapCap → NimStr
  | 0, _ => []
  | left + 1, idx =>
      match m idx with
      | none => []
      | some (k, path) =>
          if k = key then (path.map CString.bytes).getD []
          else ptrMapGetFrom m key left (next idx)

def ptrMapGetLocked (m : PtrPathMap) (key : UInt64) : NimStr :=
  ptrMapGetFrom m key ptrMapCap (ptrHome key)

/-- `get` stops where the probe stops. -/
theorem ptrMapGetFrom_eq (m : PtrPathMap) (key : UInt64) (left : Nat) :
    ∀ idx, ptrMapGetFrom m key left idx =
      if (probe (isKey key) m left idx).2 = 0 then []
      else match m (probe (isKey key) m left idx).1 with
        | none => []
        | some e => (e.2.map CString.bytes).getD [] := by
  induction left with
  | zero => intro idx; simp [ptrMapGetFrom, probe]
  | succ left ih =>
      intro idx
      cases hs : m idx with
      | none => simp [ptrMapGetFrom, probe, hs]
      | some e =>
          obtain ⟨k, path⟩ := e
          by_cases hk : k = key
          · simp [ptrMapGetFrom, probe, hs, isKey, hk]
          · simp [ptrMapGetFrom, probe, hs, isKey, hk, ih]

/-- **What a `get` answers** in a well placed table: the path of the key's slot. -/
theorem ptrMapGetLocked_held {m : PtrPathMap} (hw : WellPlaced ptrHome m) {key : UInt64}
    {path : Option CString} (hh : Holds m key path) :
    ptrMapGetLocked m key = (path.map CString.bytes).getD [] := by
  obtain ⟨i, hi⟩ := hh
  have hd := dist_lt (ptrHome key) i
  rw [ptrMapGetLocked, ptrMapGetFrom_eq, hw.probe_held hi]
  simp only [hi]
  rw [if_neg (by omega)]

theorem ptrMapGetLocked_absent {m : PtrPathMap} {key : UInt64} (hab : ∀ v, ¬ Holds m key v) :
    ptrMapGetLocked m key = [] := by
  rw [ptrMapGetLocked, ptrMapGetFrom_eq]
  rcases probe_absent ptrHome hab with ⟨-, hp⟩ | ⟨i, hi, -, hp⟩
  · simp [hp]
  · simp [hp, hi]

/-- Two well placed tables that hold the same under a key answer the same. -/
theorem ptrMapGetLocked_congr {m m' : PtrPathMap} (hw : WellPlaced ptrHome m)
    (hw' : WellPlaced ptrHome m') {key : UInt64} (h : ∀ v, Holds m' key v ↔ Holds m key v) :
    ptrMapGetLocked m' key = ptrMapGetLocked m key := by
  by_cases hex : ∃ v, Holds m key v
  · obtain ⟨v, hv⟩ := hex
    rw [ptrMapGetLocked_held hw hv, ptrMapGetLocked_held hw' ((h v).mpr hv)]
  · have hab : ∀ v, ¬ Holds m key v := fun v hv => hex ⟨v, hv⟩
    rw [ptrMapGetLocked_absent hab, ptrMapGetLocked_absent fun v hv => hab v ((h v).mp hv)]

theorem slotHasKey_of_some {m : PtrPathMap} {i : Fin ptrMapCap} {k key : UInt64}
    {v : Option CString} (hi : m i = some (k, v)) : slotHasKey m i key = decide (k = key) := by
  simp [slotHasKey, hi, isKey]

theorem slotHasKey_of_absent {m : PtrPathMap} {key : UInt64} (hab : ∀ v, ¬ Holds m key v)
    (i : Fin ptrMapCap) : slotHasKey m i key = false := by
  cases hi : m i with
  | none => simp [slotHasKey, hi]
  | some e =>
      rw [slotHasKey_of_some (k := e.1) (v := e.2) hi, decide_eq_false_iff_not]
      rintro rfl
      exact hab e.2 ⟨i, hi⟩

/-- **A set** keeps the table well placed.  Refused, it changes nothing; otherwise the key holds
the copy and no other key changes. -/
theorem ptrMapSetLocked_spec {m : PtrPathMap} (hw : WellPlaced ptrHome m) (key : UInt64)
    (path : CString) (allocated : Bool) :
    WellPlaced ptrHome (ptrMapSetLocked m key path allocated) ∧
    (ptrMapSetRefused m key = true → ptrMapSetLocked m key path allocated = m) ∧
    (ptrMapSetRefused m key = false → ∀ k v,
      Holds (ptrMapSetLocked m key path allocated) k v ↔
        if k = key then v = (if allocated then some path else none) else Holds m k v) := by
  by_cases hex : ∃ v, Holds m key v
  · -- the key has a slot: it is overwritten there
    obtain ⟨w, i, hi⟩ := hex
    have hp : ptrProbe m key = (i, ptrMapCap - dist (ptrHome key) i) := hw.probe_held hi
    have hk : slotHasKey m i key = true := by simp [slotHasKey_of_some hi]
    have hset : ptrMapSetLocked m key path allocated =
        Function.update m i (some (key, if allocated then some path else none)) := by
      simp [ptrMapSetLocked, hp, hk]
    have hnot : ptrMapSetRefused m key = false := by simp [ptrMapSetRefused, hp, hk]
    rw [hset, hnot]
    refine ⟨hw.put (.inl ⟨w, hi⟩) (hw.reached hi), by simp, fun _ k v => ?_⟩
    exact holds_put (.inl ⟨w, hi⟩) (fun hj => hw.unique hj hi) k v
  · have hab : ∀ v, ¬ Holds m key v := fun v hv => hex ⟨v, hv⟩
    rcases probe_absent ptrHome hab with ⟨-, hp⟩ | ⟨i, hi, hbefore, hp⟩
    · -- no empty slot: the probe went round
      have hp' : ptrProbe m key = (ptrHome key, 0) := hp
      have hk := slotHasKey_of_absent hab (ptrHome key)
      have hset : ptrMapSetLocked m key path allocated = m := by simp [ptrMapSetLocked, hp', hk]
      have hyes : ptrMapSetRefused m key = true := by simp [ptrMapSetRefused, hp', hk]
      rw [hset, hyes]
      exact ⟨hw, fun _ => rfl, by simp⟩
    · have hp' : ptrProbe m key = (i, ptrMapCap - dist (ptrHome key) i) := hp
      have hk := slotHasKey_of_absent hab i
      have hd := dist_lt (ptrHome key) i
      have hleft : ptrMapCap - dist (ptrHome key) i ≠ 0 := by omega
      have hset : ptrMapSetLocked m key path allocated =
          Function.update m i (some (key, if allocated then some path else none)) := by
        simp [ptrMapSetLocked, hp', hk, hleft]
      have hnot : ptrMapSetRefused m key = false := by
        simp [ptrMapSetRefused, hp', hk, hleft]
      rw [hset, hnot]
      refine ⟨hw.put (.inr ⟨hi, hab⟩) hbefore, by simp, fun _ k v => ?_⟩
      exact holds_put (.inr hi) (fun hj => absurd ⟨_, hj⟩ (hab _)) k v

/-- **A delete** ends, keeps the table well placed and takes away its key alone. -/
theorem ptrMapDelLocked_spec {m : PtrPathMap} (hw : WellPlaced ptrHome m) (key : UInt64)
    {fuel : Nat} (hfuel : backShiftBound ptrMapCap ≤ fuel) :
    ∃ m', ptrMapDelLocked fuel m key = some m' ∧ WellPlaced ptrHome m' ∧
      ∀ k v, Holds m' k v ↔ (k ≠ key ∧ Holds m k v) := by
  by_cases hex : ∃ v, Holds m key v
  · obtain ⟨w, i, hi⟩ := hex
    have hp : ptrProbe m key = (i, ptrMapCap - dist (ptrHome key) i) := hw.probe_held hi
    have hk : slotHasKey m i key = true := by simp [slotHasKey_of_some hi]
    obtain ⟨m', hrun, hw', hholds⟩ := hw.backShift_spec hi hfuel
    exact ⟨m', by simp [ptrMapDelLocked, hp, hk, hrun], hw', hholds⟩
  · have hab : ∀ v, ¬ Holds m key v := fun v hv => hex ⟨v, hv⟩
    refine ⟨m, ?_, hw, fun k v => ?_⟩
    · simp [ptrMapDelLocked, slotHasKey_of_absent hab]
    · constructor
      · intro h
        refine ⟨?_, h⟩
        rintro rfl
        exact hab v h
      · exact fun h => h.2

/-! ## 3. Runs of the pointer map -/

inductive PtrMapOp
  | set (key : UInt64) (path : CString) (allocated : Bool)
  | del (key : UInt64)
  | get (key : UInt64)

/-- One operation: the table after it, and what a `get` answered. -/
def ptrMapStep (fuel : Nat) (m : PtrPathMap) : PtrMapOp → Option (PtrPathMap × List NimStr)
  | .set key path allocated => some (ptrMapSetLocked m key path allocated, [])
  | .del key => (ptrMapDelLocked fuel m key).map fun m' => (m', [])
  | .get key => some (m, [ptrMapGetLocked m key])

/-- A run: the table reached and the answers in order, `none` if an operation did not end. -/
def ptrMapRun (fuel : Nat) : PtrPathMap → List PtrMapOp → Option (PtrPathMap × List NimStr)
  | m, [] => some (m, [])
  | m, op :: ops => do
      let (m', answer) ← ptrMapStep fuel m op
      let (m'', answers) ← ptrMapRun fuel m' ops
      return (m'', answer ++ answers)

/-- The set finds a slot and memory for its copy. -/
def PtrMapOp.accepted (m : PtrPathMap) : PtrMapOp → Bool
  | .set key _ allocated => !ptrMapSetRefused m key && allocated
  | _ => true

/-- No set of the run is refused for lack of space. -/
def noSetRefused (fuel : Nat) : PtrPathMap → List PtrMapOp → Bool
  | _, [] => true
  | m, op :: ops => op.accepted m &&
      (ptrMapStep fuel m op).all fun after => noSetRefused fuel after.1 ops

/-- The abstract table: a partial function from pointers to paths. -/
abbrev PathMap := UInt64 → Option NimStr

/-- The same operation on the abstract table.  A `get` that finds nothing answers with the empty
string. -/
def pathMapStep (f : PathMap) : PtrMapOp → PathMap × List NimStr
  | .set key path _ => (Function.update f key (some path.bytes), [])
  | .del key => (Function.update f key none, [])
  | .get key => (f, [(f key).getD []])

/-- The value of the last set of each key not followed by a delete of it, and the answers. -/
def pathMapRun : PathMap → List PtrMapOp → PathMap × List NimStr
  | f, [] => (f, [])
  | f, op :: ops =>
      let (f', answer) := pathMapStep f op
      let (f'', answers) := pathMapRun f' ops
      (f'', answer ++ answers)

/-- **The refinement.**  The table is well placed and holds under each key what the abstract table
says. -/
structure Refines (m : PtrPathMap) (f : PathMap) : Prop where
  placed : WellPlaced ptrHome m
  holds : ∀ k v, f k = some v ↔ ∃ path : CString, path.bytes = v ∧ Holds m k (some path)
  stored : ∀ k, ¬ Holds m k none

theorem Refines.empty : Refines emptyPtrMap (fun _ => none) where
  placed := WellPlaced.empty ptrHome
  holds k v := by
    constructor
    · intro h
      cases h
    · rintro ⟨path, -, i, hi⟩
      cases hi
  stored k := by
    rintro ⟨i, hi⟩
    cases hi

/-- A refining table answers as the abstract one. -/
theorem Refines.get_eq {m : PtrPathMap} {f : PathMap} (hr : Refines m f) (key : UInt64) :
    ptrMapGetLocked m key = (f key).getD [] := by
  cases hf : f key with
  | some v =>
      obtain ⟨path, hpath, hh⟩ := (hr.holds key v).mp hf
      rw [ptrMapGetLocked_held hr.placed hh]
      simp [hpath]
  | none =>
      rw [ptrMapGetLocked_absent]
      · rfl
      · intro v hv
        cases v with
        | none => exact hr.stored key hv
        | some path =>
            have := (hr.holds key path.bytes).mpr ⟨path, rfl, hv⟩
            rw [hf] at this
            cases this

/-- The step lemma of the refinement. -/
theorem Refines.step {m : PtrPathMap} {f : PathMap} (hr : Refines m f) {op : PtrMapOp}
    (hacc : op.accepted m = true) {fuel : Nat} (hfuel : backShiftBound ptrMapCap ≤ fuel) :
    ∃ m', ptrMapStep fuel m op = some (m', (pathMapStep f op).2) ∧
      Refines m' (pathMapStep f op).1 := by
  cases op with
  | set key path allocated =>
      obtain ⟨hnot, rfl⟩ : ptrMapSetRefused m key = false ∧ allocated = true := by
        simpa [PtrMapOp.accepted] using hacc
      obtain ⟨hw', -, hholds⟩ := ptrMapSetLocked_spec hr.placed key path true
      have hholds := hholds hnot
      refine ⟨_, rfl, hw', fun k v => ?_, fun k hk => ?_⟩
      · by_cases hk : k = key
        · subst hk
          simp [pathMapStep, hholds]
        · simp [pathMapStep, hholds, hk, hr.holds]
      · rw [hholds] at hk
        split at hk
        · simp at hk
        · exact hr.stored k hk
  | del key =>
      obtain ⟨m', hrun, hw', hholds⟩ := ptrMapDelLocked_spec hr.placed key hfuel
      refine ⟨m', by simp [ptrMapStep, hrun, pathMapStep], hw', fun k v => ?_, fun k hk => ?_⟩
      · by_cases hk : k = key
        · subst hk
          simp [pathMapStep, hholds]
        · simp [pathMapStep, hholds, hk, hr.holds]
      · exact hr.stored k ((hholds k none).mp hk).2
  | get key => exact ⟨m, by simp [ptrMapStep, pathMapStep, hr.get_eq], hr⟩

/-- The run lemma of the refinement. -/
theorem Refines.run {fuel : Nat} (hfuel : backShiftBound ptrMapCap ≤ fuel) (ops : List PtrMapOp) :
    ∀ {m : PtrPathMap} {f : PathMap}, Refines m f → noSetRefused fuel m ops = true →
      ∃ m', ptrMapRun fuel m ops = some (m', (pathMapRun f ops).2) ∧
        Refines m' (pathMapRun f ops).1 := by
  induction ops with
  | nil => intro m f hr _; exact ⟨m, rfl, hr⟩
  | cons op ops ih =>
      intro m f hr hno
      rw [noSetRefused, Bool.and_eq_true] at hno
      obtain ⟨m', hstep, hr'⟩ := hr.step hno.1 hfuel
      obtain ⟨m'', hrun, hr''⟩ := ih hr' (by simpa [hstep] using hno.2)
      exact ⟨m'', by simp [ptrMapRun, hstep, hrun, pathMapRun], hr''⟩

/-- **Every operation ends**, refused sets and full tables included, and the invariant stays. -/
theorem ptrMapRun_ends {fuel : Nat} (hfuel : backShiftBound ptrMapCap ≤ fuel)
    (ops : List PtrMapOp) :
    ∀ {m : PtrPathMap}, WellPlaced ptrHome m →
      ∃ m' answers, ptrMapRun fuel m ops = some (m', answers) ∧ WellPlaced ptrHome m' := by
  induction ops with
  | nil => intro m hw; exact ⟨m, [], rfl, hw⟩
  | cons op ops ih =>
      intro m hw
      obtain ⟨m', answer, hstep, hw'⟩ :
          ∃ m' answer, ptrMapStep fuel m op = some (m', answer) ∧ WellPlaced ptrHome m' := by
        cases op with
        | set key path allocated =>
            exact ⟨_, [], rfl, (ptrMapSetLocked_spec hw key path allocated).1⟩
        | del key =>
            obtain ⟨m', hrun, hw', -⟩ := ptrMapDelLocked_spec hw key hfuel
            exact ⟨m', [], by simp [ptrMapStep, hrun], hw'⟩
        | get key => exact ⟨m, _, rfl, hw⟩
      obtain ⟨m'', answers, hrun, hw''⟩ := ih hw'
      exact ⟨m'', answer ++ answers, by simp [ptrMapRun, hstep, hrun], hw''⟩

/-- **The pointer map refines a finite map.**  From the empty table every sequence of operations
ends.  If none of its sets was refused, the answers and the later answers are those of the map.  In
any state reached, a refused set changes nothing at all, a set changes no other key's answer, and a
delete ends, forgets its key and leaves every other key's answer. -/
theorem ptrMap_refines_map (ops : List PtrMapOp) {fuel : Nat}
    (hfuel : backShiftBound ptrMapCap ≤ fuel) :
    ∃ m answers, ptrMapRun fuel emptyPtrMap ops = some (m, answers) ∧
      (noSetRefused fuel emptyPtrMap ops = true → answers = (pathMapRun (fun _ => none) ops).2 ∧
        ∀ key, ptrMapGetLocked m key = ((pathMapRun (fun _ => none) ops).1 key).getD []) ∧
      (∀ key path allocated,
        (ptrMapSetRefused m key = true → ptrMapSetLocked m key path allocated = m) ∧
        ∀ k, k ≠ key →
          ptrMapGetLocked (ptrMapSetLocked m key path allocated) k = ptrMapGetLocked m k) ∧
      (∀ key, ∃ m', ptrMapDelLocked fuel m key = some m' ∧ ptrMapGetLocked m' key = [] ∧
        ∀ k, k ≠ key → ptrMapGetLocked m' k = ptrMapGetLocked m k) := by
  obtain ⟨m, answers, hrun, hw⟩ := ptrMapRun_ends hfuel ops (WellPlaced.empty ptrHome)
  refine ⟨m, answers, hrun, ?_, ?_, ?_⟩
  · intro hno
    obtain ⟨m', hrun', hr⟩ := Refines.empty.run hfuel ops hno
    obtain ⟨rfl, rfl⟩ : m = m' ∧ answers = (pathMapRun (fun _ => none) ops).2 := by
      simpa using hrun.symm.trans hrun'
    exact ⟨rfl, hr.get_eq⟩
  · intro key path allocated
    obtain ⟨hw', hrefused, hholds⟩ := ptrMapSetLocked_spec hw key path allocated
    refine ⟨hrefused, fun k hk => ?_⟩
    cases hr : ptrMapSetRefused m key with
    | true => rw [hrefused hr]
    | false => exact ptrMapGetLocked_congr hw hw' fun v => by simp [hholds hr, hk]
  · intro key
    obtain ⟨m', hdel, hw', hholds⟩ := ptrMapDelLocked_spec hw key hfuel
    refine ⟨m', hdel, ptrMapGetLocked_absent fun v hv => ((hholds key v).mp hv).1 rfl,
      fun k hk => ?_⟩
    exact ptrMapGetLocked_congr hw hw' fun v => by simp [hholds, hk]

/-- Two streams with the same home in the last slot: the second wraps around to slot 0, and the
delete of the first brings it back. -/
def wrappingStreams : List PtrMapOp :=
  [.set 0x3fff ⟨str "/a", by decide⟩ true, .set 0x7fff ⟨str "/b", by decide⟩ true,
    .del 0x3fff, .get 0x7fff, .get 0x3fff]

theorem ptrMap_refines_map_wrapping :
    noSetRefused (backShiftBound ptrMapCap) emptyPtrMap wrappingStreams = true ∧
      ∃ m, ptrMapRun (backShiftBound ptrMapCap) emptyPtrMap wrappingStreams =
        some (m, [str "/b", []]) := by
  have hno : noSetRefused (backShiftBound ptrMapCap) emptyPtrMap wrappingStreams = true := by
    decide +kernel
  obtain ⟨m, answers, hrun, hmap, -⟩ := ptrMap_refines_map wrappingStreams le_rfl
  have hanswers : (pathMapRun (fun _ => none) wrappingStreams).2 = [str "/b", []] := by
    decide +kernel
  exact ⟨hno, m, by rw [hrun, (hmap hno).1, hanswers]⟩

/-! ## 4. The set of observed inputs -/

def observedCap : Nat := 32768

def observedMask : UInt64 := 32767

/-- `ObservedSet`: the stored strings. -/
abbrev ObservedSet := Slots observedCap CString

def fnv1a (s : CString) : UInt64 :=
  s.bytes.foldl (fun h c => (h ^^^ c.toUInt64) * 0x100000001b3) 0xcbf29ce484222325

/-- `int(h and uint(observedMask))`. -/
def observedHome (key : CString) : Fin observedCap :=
  ⟨(fnv1a key &&& observedMask).toNat, by
    rw [UInt64.toNat_and]
    exact Nat.lt_of_le_of_lt Nat.and_le_right (by decide)⟩

/-- `cstrEq(a, b, n)`: the first `n` bytes, and the terminator of `b`. -/
def cstrEq (a b : CString) (n : Nat) : Bool :=
  (List.range n).all (fun i => a.byteAt i == b.byteAt i) && b.byteAt n == 0

/-- The loop of `podObservedInsertIsNew`: where it stopped and the looks it had left. -/
def observedProbe (keys : ObservedSet) (key : CString) : Fin observedCap × Nat :=
  probe (fun stored => cstrEq stored key key.length) keys observedCap (observedHome key)

/-- `podObservedInsertIsNew` on a key that is not `nil`: the answer, and the set after the call. -/
def podObservedInsertIsNew (keys : ObservedSet) (key : CString) (allocated : Bool) :
    Bool × ObservedSet :=
  let (idx, left) := observedProbe keys key
  -- the loop leaves a used slot before it has gone round only through its `break`
  let newlyInserted := left == 0 || (keys idx).isNone
  if newlyInserted && left != 0 && allocated then
    (newlyInserted, Function.update keys idx (some key))
  else (newlyInserted, keys)

/-- **What `cstrEq` compares**: whether the stored string BEGINS with the key. -/
theorem cstrEq_iff (stored key : CString) :
    cstrEq stored key key.length = true ↔ key.bytes <+: stored.bytes := by
  rw [cstrEq, key.byteAt_length]
  simp only [beq_self_eq_true, Bool.and_true, List.all_eq_true, List.mem_range, beq_iff_eq]
  constructor
  · intro h
    rw [List.prefix_iff_eq_take]
    have hlen : key.length ≤ stored.length := by
      by_contra hcon
      have h1 := h stored.length (by omega)
      rw [stored.byteAt_length] at h1
      exact CString.byteAt_ne_zero (by omega) h1.symm
    have hle : key.bytes.length ≤ stored.bytes.length := hlen
    apply List.ext_getElem
    · simp [hle]
    · intro i hi hi'
      have h1 := h i hi
      rw [CString.byteAt, CString.byteAt, List.getD_eq_getElem _ _ hi,
        List.getD_eq_getElem _ _ (by omega)] at h1
      simp [h1]
  · rintro ⟨rest, hrest⟩ i hi
    have hi' : i < key.bytes.length := hi
    rw [CString.byteAt, CString.byteAt, ← hrest, List.getD_append _ _ _ _ hi']

/-- The slot `x` is on the probe run of `h`: no slot from `h` to it is empty. -/
def OnProbeRun (keys : ObservedSet) (h x : Fin observedCap) : Prop :=
  ∀ y, dist h y ≤ dist h x → keys y ≠ none

/-- **When a key is taken for a repeat**: a stored string on its probe run begins with it. -/
theorem podObservedInsertIsNew_eq_false (keys : ObservedSet) (key : CString) (allocated : Bool) :
    (podObservedInsertIsNew keys key allocated).1 = false ↔
      ∃ x stored, OnProbeRun keys (observedHome key) x ∧ keys x = some stored ∧
        key.bytes <+: stored.bytes := by
  have hanswer : (podObservedInsertIsNew keys key allocated).1 = false ↔
      (observedProbe keys key).2 ≠ 0 ∧ keys (observedProbe keys key).1 ≠ none := by
    unfold podObservedInsertIsNew
    simp only []
    split <;> simp [Option.isSome_iff_ne_none]
  have hpass : ∀ x, Passes (fun stored => cstrEq stored key key.length) keys x ↔
      ∃ stored, keys x = some stored ∧ ¬ key.bytes <+: stored.bytes := by
    intro x
    simp only [Passes, ← cstrEq_iff, Bool.not_eq_true]
  rw [hanswer]
  rcases probe_cases (fun stored => cstrEq stored key key.length) keys (observedHome key) with
    ⟨hall, hp⟩ | ⟨i, hi, hbefore, hp⟩
  · -- the probe went round: no stored string begins with the key
    have hp' : observedProbe keys key = (observedHome key, 0) := hp
    simp only [hp', ne_eq, not_true_eq_false, false_and, false_iff]
    rintro ⟨x, stored, -, hx, hpre⟩
    obtain ⟨stored', hx', hnot⟩ := (hpass x).mp (hall x)
    rw [hx, Option.some_inj] at hx'
    exact hnot (hx' ▸ hpre)
  · have hp' : observedProbe keys key = (i, observedCap - dist (observedHome key) i) := hp
    have hd := dist_lt (observedHome key) i
    simp only [hp']
    constructor
    · rintro ⟨-, hne⟩
      obtain ⟨stored, hs⟩ := Option.ne_none_iff_exists'.mp hne
      refine ⟨i, stored, fun y hy => ?_, hs, ?_⟩
      · rcases Nat.lt_or_ge (dist (observedHome key) y) (dist (observedHome key) i) with hlt | hge
        · obtain ⟨s, hs', -⟩ := (hpass y).mp (hbefore y hlt)
          simp [hs']
        · rw [dist_inj (h := observedHome key) (i := y) (j := i) (by omega)]
          exact hne
      · by_contra hnot
        exact hi ((hpass i).mpr ⟨stored, hs, hnot⟩)
    · rintro ⟨x, stored, hon, hx, hpre⟩
      refine ⟨by omega, hon i ?_⟩
      by_contra hcon
      obtain ⟨stored', hx', hnot⟩ := (hpass x).mp (hbefore x (by omega))
      rw [hx, Option.some_inj] at hx'
      exact hnot (hx' ▸ hpre)

/-! ## 5. Runs of the observed set -/

/-- The set after a sequence of calls, each with its key and the fate of its allocation. -/
def observedAfter (calls : List (CString × Bool)) : ObservedSet :=
  calls.foldl (fun keys call => (podObservedInsertIsNew keys call.1 call.2).2) (fun _ => none)

/-- A call stores its own key or nothing. -/
theorem podObservedInsertIsNew_stores {keys : ObservedSet} {key : CString} {allocated : Bool}
    {x : Fin observedCap} {stored : CString}
    (h : (podObservedInsertIsNew keys key allocated).2 x = some stored) :
    stored = key ∨ keys x = some stored := by
  unfold podObservedInsertIsNew at h
  dsimp only at h
  split at h
  · dsimp only at h
    by_cases hx : x = (observedProbe keys key).1
    · subst hx
      simp only [Function.update_self, Option.some.injEq] at h
      exact .inl h.symm
    · rw [Function.update_of_ne hx] at h
      exact .inr h
  · exact .inr h

/-- **Only keys of earlier calls are stored.** -/
theorem observedAfter_mem (calls : List (CString × Bool)) :
    ∀ {x stored}, observedAfter calls x = some stored → stored ∈ calls.map Prod.fst := by
  induction calls using List.reverseRecOn with
  | nil => intro x stored h; cases h
  | append_singleton calls call ih =>
      intro x stored h
      have hstep : observedAfter (calls ++ [call]) =
          (podObservedInsertIsNew (observedAfter calls) call.1 call.2).2 := by
        simp [observedAfter]
      rw [List.map_append, List.mem_append]
      rcases podObservedInsertIsNew_stores (hstep ▸ h) with rfl | hold
      · exact .inr (by simp)
      · exact .inl (ih hold)

/-- The call answers `false` only if the same key was there before. -/
def SuppressesOnlyRepeats (before : List (CString × Bool)) (call : CString × Bool) : Prop :=
  (podObservedInsertIsNew (observedAfter before) call.1 call.2).1 = false →
    call.1 ∈ before.map Prod.fst

/-- Every call of the sequence does. -/
def NeverSuppressesNew (calls : List (CString × Bool)) : Prop :=
  ∀ before call after, calls = before ++ call :: after → SuppressesOnlyRepeats before call

/-- The key was there before, or no stored string on its probe run continues it. -/
def NoContinuationOnProbeRun (before : List (CString × Bool)) (call : CString × Bool) : Prop :=
  call.1 ∈ before.map Prod.fst ∨
    ¬ ∃ x stored, OnProbeRun (observedAfter before) (observedHome call.1) x ∧
      observedAfter before x = some stored ∧ call.1.bytes <+: stored.bytes ∧
      stored.bytes ≠ call.1.bytes

/-- The step lemma: one call. -/
theorem suppressesOnlyRepeats_iff (before : List (CString × Bool)) (call : CString × Bool) :
    SuppressesOnlyRepeats before call ↔ NoContinuationOnProbeRun before call := by
  rw [SuppressesOnlyRepeats, podObservedInsertIsNew_eq_false, NoContinuationOnProbeRun]
  constructor
  · intro h
    by_cases hmem : call.1 ∈ before.map Prod.fst
    · exact .inl hmem
    · right
      rintro ⟨x, stored, hon, hx, hpre, -⟩
      exact hmem (h ⟨x, stored, hon, hx, hpre⟩)
  · rintro (hmem | hnone) ⟨x, stored, hon, hx, hpre⟩
    · exact hmem
    · by_cases heq : stored.bytes = call.1.bytes
      · have hkey : stored = call.1 := by
          cases stored
          cases hc : call.1
          simp_all
        exact hkey ▸ observedAfter_mem before hx
      · exact absurd ⟨x, stored, hon, hx, hpre, heq⟩ hnone

/-- **The observed set never suppresses a new key, exactly** while no call's key is continued by a
stored string on its probe run. -/
theorem observed_never_suppresses_iff (calls : List (CString × Bool)) :
    NeverSuppressesNew calls ↔ ∀ before call after, calls = before ++ call :: after →
      NoContinuationOnProbeRun before call := by
  unfold NeverSuppressesNew
  simp only [suppressesOnlyRepeats_iff]

/-- The keys of `getenv("LANG_BY")` and `getenv("LANG")`, which have one home. -/
def langBy : CString := ⟨str "14:LANG_BY", by decide⟩

def lang : CString := ⟨str "14:LANG", by decide⟩

/-- After `LANG_BY` was looked up, the first look-up of `LANG` is taken for a repeat. -/
theorem lang_suppressed_after_langBy :
    ¬ NeverSuppressesNew [(langBy, true), (lang, true)] := by
  intro h
  have hcall := h [(langBy, true)] (lang, true) [] rfl (by decide +kernel)
  revert hcall
  decide

end IoMon
