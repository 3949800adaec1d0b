/-
# A whole-block environment read

`recordEnvBlockRead` walks the block that `GetEnvironmentStringsW` returns, cuts the name out of
every `NAME=VALUE` entry and passes it to `recordEnvRead`.  Two of its steps can lose a variable.
The walk stops after 2^20 code units, so what begins behind them is not seen.  And a name is
passed on as bytes, each code unit cut to its low byte: names of different variables can become
one, and the second of them is taken for a repetition of the first.

`blockNames_units` says which names the walk finds, `recordAll_getElem` what becomes of each, and
`blockComplete_iff` what a block needs for each of its variables to be recorded.  A block whose
names are Latin-1 and that fits the bound has it, in every run (`blockComplete_of_narrow`).
-/
import IoMon.Lib.NulBlocks
import IoMon.Shim.EnvReads

namespace IoMon

open ByteText NulBlocks

/-! ## 1. The walk -/

def MaxBlockCodeUnits : Nat := 1048576

/-- The name of an entry: what stands before its first `=` that is not the first unit. -/
def entryName (entry : List UInt16) : Option (List UInt16) := keyBefore 61 entry

/-- The names the walk finds, before they are cut to bytes. -/
def blockNames (units : List UInt16) : List (List UInt16) :=
  (blockEntries 0 MaxBlockCodeUnits units).filterMap entryName

/-- `chr(int(unit) and 0xFF)` for every unit. -/
def narrowName (name : List UInt16) : NimStr := name.map (·.toUInt8)

/-- The loop over the names: the events of each call. -/
def recordAll (s : EnvState) : List NimStr → EnvState × List (List EnvEvent)
  | [] => (s, [])
  | name :: names =>
    let call := recordEnvRead true s name
    ((recordAll call.1 names).1, call.2 :: (recordAll call.1 names).2)

/-- **`recordEnvBlockRead`** on a live shim. -/
def recordEnvBlockRead (s : EnvState) (units : List UInt16) : EnvState × List (List EnvEvent) :=
  recordAll s ((blockNames units).map narrowName)

/-! ## 2. Blocks and their variables -/

/-- A well-formed block of UTF-16 entries. -/
abbrev EnvBlock := NulBlock (0 : UInt16)

/-- The variables of a block. -/
def blockVariables (b : EnvBlock) : List (List UInt16) := b.entries.filterMap entryName

/-- The names whose `=` lies in the first 2^20 code units, of entries that begin `offset` units
into the block. -/
def namesWithin : (offset : Nat) → List (List UInt16) → List (List UInt16)
  | _, [] => []
  | offset, e :: es =>
    ((entryName e).filter fun v => decide (offset + v.length < MaxBlockCodeUnits)).toList ++
      namesWithin (offset + (e.length + 1)) es

/-- The variables of the block that the walk reaches. -/
def blockReached (b : EnvBlock) : List (List UInt16) := namesWithin 0 b.entries

/-- The upper-case ASCII fold of a code unit. -/
def upperUnit (u : UInt16) : UInt16 := if 97 ≤ u ∧ u ≤ 122 then u - 32 else u

/-- Names that differ in ASCII case at most name one variable. -/
def SameVariable (v w : List UInt16) : Prop := v.map upperUnit = w.map upperUnit

instance (v w : List UInt16) : Decidable (SameVariable v w) :=
  inferInstanceAs (Decidable (_ = _))

/-- A byte string as code units. -/
def widen (s : NimStr) : List UInt16 := s.map (·.toUInt16)

/-- A per-drive variable of the system, `=C:`. -/
def Hidden (v : List UInt16) : Prop := v.head? = some 61

/-- One of the monitor's own control variables. -/
def Denylisted (v : List UInt16) : Prop :=
  ∃ envPrefix ∈ ObservedEnvDenylistPrefixes, widen envPrefix <+: v.map upperUnit

/-- The `i`-th name of the walk is this variable's, and its call makes an env-read record. -/
def RecordAt (s : EnvState) (b : EnvBlock) (v : List UInt16) (i : Nat) : Prop :=
  ∃ w ∈ (blockNames b.units)[i]?, SameVariable w v ∧
    ∃ events ∈ (recordEnvBlockRead s b.units).2[i]?, EnvEvent.recorded (narrowName w) ∈ events

/-- A variable that the block read must record; `before` says which were recorded already. -/
def Owed (b : EnvBlock) (before : List UInt16 → Prop) (v : List UInt16) : Prop :=
  v ∈ blockVariables b ∧ ¬ Hidden v ∧ ¬ Denylisted v ∧ ¬ before v

/-- **A complete block read**: every variable it must record has a record of its own, and
different variables have different ones. -/
def BlockComplete (s : EnvState) (b : EnvBlock) (before : List UInt16 → Prop) : Prop :=
  (∀ v, Owed b before v → ∃ i, RecordAt s b v i) ∧
    ∀ v w, Owed b before v → Owed b before w → ¬ SameVariable v w →
      ∃ i j, i ≠ j ∧ RecordAt s b v i ∧ RecordAt s b w j

/-- The key under which a name of the block is remembered. -/
def blockKey (v : List UInt16) : NimStr := envDedupKey (narrowName v)

/-- **A variable that a block read records**: the walk reaches it, its cut name is neither
denylisted nor remembered, and no other variable in front of it has its key. -/
def Readable (s : EnvState) (b : EnvBlock) (v : List UInt16) : Prop :=
  isDenylistedEnvName (narrowName v) = false ∧ blockKey v ∉ s.seenEnvNames ∧
    ∃ i, (∃ w ∈ (blockReached b)[i]?, SameVariable w v) ∧
      ∀ u ∈ (blockReached b).take i, blockKey u = blockKey v → SameVariable u v

/-! ## 3. The walk finds the names in its range -/

theorem filterMap_seen (offset : Nat) (es : List (List UInt16)) :
    (seen MaxBlockCodeUnits offset es).filterMap entryName = namesWithin offset es := by
  induction es generalizing offset with
  | nil => rfl
  | cons e es ih =>
    rw [namesWithin, ← ih]
    rcases Nat.lt_or_ge offset MaxBlockCodeUnits with hlt | hge
    · have hsame : (entryName e).filter (fun v =>
          decide (v.length < MaxBlockCodeUnits - offset)) =
          (entryName e).filter fun v => decide (offset + v.length < MaxBlockCodeUnits) := by
        congr 1
        funext v
        rw [decide_eq_decide]
        omega
      rw [seen, if_pos hlt, List.filterMap_cons, entryName, keyBefore_take, ← entryName, hsame]
      cases (entryName e).filter fun v => decide (offset + v.length < MaxBlockCodeUnits) <;> rfl
    · have hnone : (entryName e).filter (fun v =>
          decide (offset + v.length < MaxBlockCodeUnits)) = none := by
        rw [Option.filter_eq_none_iff]
        intro v _
        simp only [decide_eq_true_eq]
        omega
      rw [seen_of_ge hge, seen_of_ge (Nat.le_trans hge (Nat.le_add_right _ _)), hnone]
      rfl

/-- **The walk finds the names whose `=` is within its bound**, in the order of the block. -/
theorem blockNames_units (b : EnvBlock) : blockNames b.units = blockReached b := by
  have h := blockEntries_units b MaxBlockCodeUnits []
  rw [List.append_nil] at h
  rw [blockNames, h, filterMap_seen, blockReached]

theorem namesWithin_subset {offset : Nat} {es : List (List UInt16)} {v : List UInt16}
    (h : v ∈ namesWithin offset es) : v ∈ es.filterMap entryName := by
  induction es generalizing offset with
  | nil => exact h
  | cons e es ih =>
    rw [namesWithin, List.mem_append, Option.mem_toList] at h
    rw [List.mem_filterMap]
    rcases h with h | h
    · exact ⟨e, List.mem_cons_self, (Option.filter_eq_some_iff.mp h).1⟩
    · obtain ⟨e', he', hv⟩ := List.mem_filterMap.mp (ih h)
      exact ⟨e', List.mem_cons_of_mem _ he', hv⟩

theorem ne_nil_of_mem_reached {b : EnvBlock} {v : List UInt16} (h : v ∈ blockReached b) :
    v ≠ [] := by
  obtain ⟨e, _, hv⟩ := List.mem_filterMap.mp (namesWithin_subset h)
  exact keyBefore_ne_nil hv

/-- A block that fits the bound is walked to its end. -/
theorem blockReached_of_fits {b : EnvBlock} (h : extent b.entries ≤ MaxBlockCodeUnits) :
    blockReached b = blockVariables b := by
  rw [blockReached, ← filterMap_seen, seen_of_fits (by rwa [Nat.zero_add]), blockVariables]

/-! ## 4. The keys of cut names -/

theorem toUInt8_range {u : UInt16} (h : 97 ≤ u ∧ u ≤ 122) :
    upperAscii u.toUInt8 = upperAscii (u - 32).toUInt8 := by
  obtain ⟨h1, h2⟩ := h
  rw [UInt16.le_iff_toNat_le] at h1 h2
  have h97 : (97 : UInt16).toNat = 97 := rfl
  have h122 : (122 : UInt16).toNat = 122 := rfl
  have hall : ∀ n : Fin 123, 97 ≤ n.val → upperAscii (UInt16.ofNat n.val).toUInt8 =
      upperAscii (UInt16.ofNat n.val - 32).toUInt8 := by decide +kernel
  have hu := hall ⟨u.toNat, by omega⟩ (by simpa [h97] using h1)
  rwa [UInt16.ofNat_toNat] at hu

theorem upperAscii_upperUnit (u : UInt16) :
    upperAscii (upperUnit u).toUInt8 = upperAscii u.toUInt8 := by
  unfold upperUnit
  split
  · rename_i h
    exact (toUInt8_range h).symm
  · rfl

/-- The key of a cut name is one of the variable: case does not matter. -/
theorem SameVariable.blockKey_eq {v w : List UInt16} (h : SameVariable v w) :
    blockKey v = blockKey w := by
  have hkey : ∀ l : List UInt16,
      blockKey l = (l.map upperUnit).map fun u => upperAscii u.toUInt8 := by
    intro l
    rw [blockKey, envDedupKey, narrowName, List.map_map, List.map_map]
    exact List.map_congr_left fun u _ => (upperAscii_upperUnit u).symm
  rw [hkey, hkey, h]

theorem isDenylistedEnvName_congr {a b : NimStr} (h : envDedupKey a = envDedupKey b) :
    isDenylistedEnvName a = isDenylistedEnvName b := by
  rw [isDenylistedEnvName, isDenylistedEnvName, h]

/-! ## 5. What becomes of a list of names -/

theorem mem_recordEnvRead_iff {s : EnvState} {name : NimStr} (hname : name ≠ []) :
    EnvEvent.recorded name ∈ (recordEnvRead true s name).2 ↔
      isDenylistedEnvName name = false ∧ envDedupKey name ∉ s.seenEnvNames := by
  rcases recordEnvRead_cases true s name with ⟨h, hwhy⟩ | ⟨h, _, _, hdeny, hfresh⟩
  · rw [h]
    constructor
    · exact fun hmem => absurd hmem List.not_mem_nil
    · rintro ⟨hdeny, hfresh⟩
      rcases hwhy with h' | h' | h' | h'
      · exact absurd h' hname
      · exact absurd h' (by decide)
      · rw [hdeny] at h'
        exact absurd h' (by decide)
      · exact absurd h' hfresh
  · rw [h]
    exact ⟨fun _ => ⟨hdeny, hfresh⟩, fun _ => List.mem_append_right _ List.mem_cons_self⟩

/-- The `i`-th call is made in the state behind the names in front of it. -/
theorem recordAll_getElem (s : EnvState) (names : List NimStr) (i : Nat) :
    (recordAll s names).2[i]? =
      names[i]?.map fun name => (recordEnvRead true (recordAll s (names.take i)).1 name).2 := by
  induction names generalizing s i with
  | nil => rfl
  | cons name names ih =>
    cases i with
    | zero => rfl
    | succ i => exact ih _ i

/-- What is remembered behind a list of names was remembered before, or is the key of one. -/
theorem recordAll_seen_of_mem {s : EnvState} {names : List NimStr} {key : NimStr}
    (h : key ∈ (recordAll s names).1.seenEnvNames) :
    key ∈ s.seenEnvNames ∨ ∃ name ∈ names, envDedupKey name = key := by
  induction names generalizing s with
  | nil => exact Or.inl h
  | cons name names ih =>
    rcases ih h with hseen | ⟨n, hn, hkey⟩
    · rcases recordEnvRead_cases true s name with ⟨hcall, _⟩ | ⟨hcall, _⟩
      · rw [hcall] at hseen
        exact Or.inl hseen
      · rw [hcall] at hseen
        rcases List.mem_append.mp hseen with hold | hnew
        · by_cases hfull : s.seenEnvNames.length ≥ ObservedEnvCacheCap
          · simp [hfull] at hold
          · exact Or.inl (by simpa [hfull] using hold)
        · exact Or.inr ⟨name, List.mem_cons_self, (List.mem_singleton.mp hnew).symm⟩
    · exact Or.inr ⟨n, List.mem_cons_of_mem _ hn, hkey⟩

/-- As long as the memory is not full nothing is forgotten, and every name that is no control
variable of the monitor is remembered. -/
theorem recordAll_seen_of_room {s : EnvState} {names : List NimStr}
    (hroom : s.seenEnvNames.length + names.length ≤ ObservedEnvCacheCap) :
    s.seenEnvNames ⊆ (recordAll s names).1.seenEnvNames ∧
      ∀ name ∈ names, name ≠ [] → isDenylistedEnvName name = false →
        envDedupKey name ∈ (recordAll s names).1.seenEnvNames := by
  induction names generalizing s with
  | nil => exact ⟨List.Subset.refl _, fun _ h => absurd h List.not_mem_nil⟩
  | cons name names ih =>
    rw [List.length_cons] at hroom
    have hcall : s.seenEnvNames ⊆ (recordEnvRead true s name).1.seenEnvNames ∧
        (recordEnvRead true s name).1.seenEnvNames.length ≤ s.seenEnvNames.length + 1 ∧
        (name ≠ [] → isDenylistedEnvName name = false →
          envDedupKey name ∈ (recordEnvRead true s name).1.seenEnvNames) := by
      rcases recordEnvRead_cases true s name with ⟨h, hwhy⟩ | ⟨h, _⟩
      · rw [h]
        refine ⟨List.Subset.refl _, Nat.le_succ _, fun hname hdeny => ?_⟩
        rcases hwhy with h' | h' | h' | h'
        · exact absurd h' hname
        · exact absurd h' (by decide)
        · rw [hdeny] at h'
          exact absurd h' (by decide)
        · exact h'
      · have hfull : ¬ s.seenEnvNames.length ≥ ObservedEnvCacheCap := by omega
        rw [h]
        simp [freshState, hfull]
    obtain ⟨hkeep, hlen, hnew⟩ := hcall
    obtain ⟨hkeep', hnew'⟩ := ih (s := (recordEnvRead true s name).1) (by omega)
    refine ⟨List.Subset.trans hkeep hkeep', ?_⟩
    intro n hn hne hdeny
    rcases List.mem_cons.mp hn with rfl | hn
    · exact hkeep' (hnew hne hdeny)
    · exact hnew' n hn hne hdeny

/-! ## 6. Block reads -/

theorem recordAt_iff {s : EnvState} {b : EnvBlock} {v : List UInt16} {i : Nat} :
    RecordAt s b v i ↔ isDenylistedEnvName (narrowName v) = false ∧
      (∃ w ∈ (blockReached b)[i]?, SameVariable w v) ∧
        blockKey v ∉ (recordAll s (((blockReached b).take i).map narrowName)).1.seenEnvNames := by
  have hcall : ∀ w ∈ (blockReached b)[i]?, SameVariable w v →
      ((∃ events ∈ (recordEnvBlockRead s b.units).2[i]?,
          EnvEvent.recorded (narrowName w) ∈ events) ↔
        isDenylistedEnvName (narrowName v) = false ∧ blockKey v ∉
          (recordAll s (((blockReached b).take i).map narrowName)).1.seenEnvNames) := by
    intro w hw hsame
    have hne : narrowName w ≠ [] := fun h =>
      ne_nil_of_mem_reached (List.mem_of_getElem? hw) (List.map_eq_nil_iff.mp h)
    have hget : (recordEnvBlockRead s b.units).2[i]? =
        some (recordEnvRead true (recordAll s (((blockReached b).take i).map narrowName)).1
          (narrowName w)).2 := by
      rw [recordEnvBlockRead, blockNames_units, recordAll_getElem, List.getElem?_map, hw,
        List.map_take]
      rfl
    rw [hget, ← hsame.blockKey_eq, ← isDenylistedEnvName_congr hsame.blockKey_eq]
    simp only [Option.mem_some_iff, exists_eq_left']
    exact mem_recordEnvRead_iff hne
  rw [RecordAt, blockNames_units]
  constructor
  · rintro ⟨w, hw, hsame, hevents⟩
    obtain ⟨hdeny, hfresh⟩ := (hcall w hw hsame).mp hevents
    exact ⟨hdeny, ⟨w, hw, hsame⟩, hfresh⟩
  · rintro ⟨hdeny, ⟨w, hw, hsame⟩, hfresh⟩
    exact ⟨w, hw, hsame, (hcall w hw hsame).mpr ⟨hdeny, hfresh⟩⟩

/-- **What the walk can read it records**, whatever else is in the block. -/
theorem Readable.recordAt {s : EnvState} {b : EnvBlock} {v : List UInt16} (h : Readable s b v) :
    ∃ i, RecordAt s b v i := by
  obtain ⟨hdeny, hfresh, hi⟩ := h
  -- the first entry of the variable: nothing in front of it has the key at all
  classical
  obtain ⟨⟨w, hw, hsame⟩, hfront⟩ := Nat.find_spec hi
  refine ⟨Nat.find hi, recordAt_iff.mpr ⟨hdeny, ⟨w, hw, hsame⟩, ?_⟩⟩
  intro hseen
  rcases recordAll_seen_of_mem hseen with hold | ⟨name, hname, hkey⟩
  · exact hfresh hold
  · obtain ⟨u, hu, rfl⟩ := List.mem_map.mp hname
    have hsameu : SameVariable u v := hfront u hu hkey
    obtain ⟨j, hj, hget⟩ := List.mem_take_iff_getElem.mp hu
    have hlt : j < Nat.find hi := (Nat.lt_min.mp hj).1
    refine Nat.find_min hi hlt ⟨⟨u, ?_, hsameu⟩, ?_⟩
    · rw [← hget]
      exact List.getElem?_eq_getElem _
    · intro u' hu'
      exact hfront u' (List.take_subset_take_left _ (Nat.le_of_lt hlt) hu')

/-- While the memory has room for the block, it records nothing else. -/
theorem RecordAt.readable {s : EnvState} {b : EnvBlock} {v : List UInt16} {i : Nat}
    (hroom : s.seenEnvNames.length + (blockReached b).length ≤ ObservedEnvCacheCap)
    (h : RecordAt s b v i) : Readable s b v := by
  obtain ⟨hdeny, hw, hfresh⟩ := recordAt_iff.mp h
  have hlen : s.seenEnvNames.length + (((blockReached b).take i).map narrowName).length ≤
      ObservedEnvCacheCap := by
    rw [List.length_map, List.length_take]
    omega
  obtain ⟨hkeep, hnew⟩ := recordAll_seen_of_room hlen
  refine ⟨hdeny, fun hold => hfresh (hkeep hold), i, hw, ?_⟩
  intro u hu hkey
  have hne : narrowName u ≠ [] := fun h' =>
    ne_nil_of_mem_reached (List.mem_of_mem_take hu) (List.map_eq_nil_iff.mp h')
  have hmem := hnew (narrowName u) (List.mem_map_of_mem hu) hne
    (by rw [isDenylistedEnvName_congr hkey]; exact hdeny)
  rw [← blockKey, hkey] at hmem
  exact absurd hmem hfresh

/-- Different variables have different records. -/
theorem RecordAt.ne {s : EnvState} {b : EnvBlock} {v w : List UInt16} {i j : Nat}
    (hv : RecordAt s b v i) (hw : RecordAt s b w j) (hne : ¬ SameVariable v w) : i ≠ j := by
  rintro rfl
  obtain ⟨_, ⟨v', hv', hsamev⟩, _⟩ := recordAt_iff.mp hv
  obtain ⟨_, ⟨w', hw', hsamew⟩, _⟩ := recordAt_iff.mp hw
  obtain rfl : v' = w' := Option.some.inj (hv'.symm.trans hw')
  exact hne (hsamev.symm.trans hsamew)

/-- **A block read is complete if the walk can read every variable it must record**, and only then
as long as the memory has room for the block. -/
theorem blockComplete_iff (s : EnvState) (b : EnvBlock) (before : List UInt16 → Prop) :
    ((∀ v, Owed b before v → Readable s b v) → BlockComplete s b before) ∧
      (s.seenEnvNames.length + (blockReached b).length ≤ ObservedEnvCacheCap →
        (BlockComplete s b before ↔ ∀ v, Owed b before v → Readable s b v)) := by
  have hcomplete : (∀ v, Owed b before v → Readable s b v) → BlockComplete s b before := by
    intro h
    refine ⟨fun v hv => (h v hv).recordAt, ?_⟩
    intro v w hv hw hne
    obtain ⟨i, hi⟩ := (h v hv).recordAt
    obtain ⟨j, hj⟩ := (h w hw).recordAt
    exact ⟨i, j, hi.ne hj hne, hi, hj⟩
  refine ⟨hcomplete, fun hroom => ⟨?_, hcomplete⟩⟩
  intro h v hv
  obtain ⟨i, hi⟩ := h.1 v hv
  exact hi.readable hroom

/-- A block of two variables, `A` and `b`. -/
def twoVariables : EnvBlock := ⟨[[65, 61, 49], [98, 61, 50]], by decide⟩

theorem blockComplete_twoVariables : BlockComplete initEnv twoVariables fun _ => False := by
  refine (blockComplete_iff initEnv twoVariables fun _ => False).1 ?_
  rintro v ⟨hv, _, _, _⟩
  have hvars : blockVariables twoVariables = [[65], [98]] := by decide
  rw [hvars] at hv
  have hfixed : (blockReached twoVariables)[0]? = some [65] ∧
      (blockReached twoVariables)[1]? = some [98] ∧
      (∀ u ∈ (blockReached twoVariables).take 0, blockKey u = blockKey [65] → SameVariable u [65]) ∧
      (∀ u ∈ (blockReached twoVariables).take 1, blockKey u = blockKey [98] → SameVariable u [98]) ∧
      isDenylistedEnvName (narrowName [65]) = false ∧
      isDenylistedEnvName (narrowName [98]) = false := by
    decide +kernel
  obtain ⟨hget0, hget1, hfront0, hfront1, hdeny0, hdeny1⟩ := hfixed
  rcases List.mem_cons.mp hv with rfl | hv
  · exact ⟨hdeny0, List.not_mem_nil, 0, ⟨_, hget0, rfl⟩, hfront0⟩
  · obtain rfl := List.mem_singleton.mp hv
    exact ⟨hdeny1, List.not_mem_nil, 1, ⟨_, hget1, rfl⟩, hfront1⟩

/-- A block of the variables `A` and U+0141, whose low byte is `A`. -/
def mergedVariables : EnvBlock := ⟨[[65, 61, 49], [0x141, 61, 50]], by decide⟩

/-- **A variable without a record**: the second one is taken for a repetition of the first. -/
theorem mergedVariables_incomplete :
    Owed mergedVariables (fun _ => False) [0x141] ∧
      (recordEnvBlockRead initEnv mergedVariables.units).2 =
        [[EnvEvent.recorded (str "A")], []] ∧
      ¬ BlockComplete initEnv mergedVariables fun _ => False := by
  have hfixed : blockReached mergedVariables = [[65], [0x141]] ∧
      [0x141] ∈ blockVariables mergedVariables ∧
      ¬ SameVariable [65] [0x141] ∧
      (∀ envPrefix ∈ ObservedEnvDenylistPrefixes,
        ¬ widen envPrefix <+: ([0x141] : List UInt16).map upperUnit) ∧
      (recordAll initEnv ([[65], [0x141]].map narrowName)).2 =
        [[EnvEvent.recorded (str "A")], []] := by
    decide +kernel
  obtain ⟨hreached, hvar, hne, hdeny, hcalls⟩ := hfixed
  have howed : Owed mergedVariables (fun _ => False) [0x141] := by
    refine ⟨hvar, by unfold Hidden; decide, ?_, id⟩
    rintro ⟨envPrefix, hmem, hpre⟩
    exact hdeny envPrefix hmem hpre
  have hread : (recordEnvBlockRead initEnv mergedVariables.units).2 =
      [[EnvEvent.recorded (str "A")], []] := by
    rw [recordEnvBlockRead, blockNames_units, hreached, hcalls]
  refine ⟨howed, hread, ?_⟩
  intro h
  obtain ⟨i, w, hw, hsame, events, hevents, hmem⟩ := h.1 _ howed
  rw [blockNames_units, hreached] at hw
  rw [hread] at hevents
  match i with
  | 0 =>
    obtain rfl : [65] = w := Option.some.inj hw
    exact hne hsame
  | 1 =>
    obtain rfl : [] = events := Option.some.inj hevents
    exact absurd hmem List.not_mem_nil
  | i + 2 => exact absurd hw (by simp)

/-! ## 7. Latin-1 names -/

/-- An env-read record of the variable was made at some time: a record's bytes read as units. -/
def RecordedBefore (history : List EnvEvent) (v : List UInt16) : Prop :=
  ∃ name, EnvEvent.recorded name ∈ history ∧ SameVariable (widen name) v

theorem upperUnit_widen (c : UInt8) : upperUnit c.toUInt16 = (upperAscii c).toUInt16 := by
  have hall : ∀ n : Fin 256, upperUnit (UInt8.ofNat n.val).toUInt16 =
      (upperAscii (UInt8.ofNat n.val)).toUInt16 := by decide +kernel
  have hc := hall ⟨c.toNat, UInt8.toNat_lt c⟩
  rwa [UInt8.ofNat_toNat] at hc

theorem map_upperUnit_widen (name : NimStr) :
    (widen name).map upperUnit = widen (envDedupKey name) := by
  rw [widen, widen, envDedupKey, List.map_map, List.map_map]
  exact List.map_congr_left fun c _ => upperUnit_widen c

theorem widen_narrowName {v : List UInt16} (h : ∀ u ∈ v, u < 256) : widen (narrowName v) = v := by
  rw [widen, narrowName, List.map_map]
  refine (List.map_congr_left fun u hu => ?_).trans (List.map_id v)
  have hlt := h u hu
  rw [UInt16.lt_iff_toNat_lt] at hlt
  refine UInt16.toNat_inj.mp ?_
  rw [Function.comp_apply, UInt8.toNat_toUInt16, UInt16.toNat_toUInt8]
  exact Nat.mod_eq_of_lt hlt

/-- A variable of Latin-1 units: its key is the key of no other one. -/
theorem sameVariable_of_blockKey {v w : List UInt16} (hv : ∀ u ∈ v, u < 256)
    (hw : ∀ u ∈ w, u < 256) (h : blockKey v = blockKey w) : SameVariable v w := by
  rw [SameVariable, ← widen_narrowName hv, ← widen_narrowName hw, map_upperUnit_widen,
    map_upperUnit_widen]
  exact congrArg widen h

theorem denylisted_of_narrowName {v : List UInt16} (hv : ∀ u ∈ v, u < 256)
    (h : isDenylistedEnvName (narrowName v) = true) : Denylisted v := by
  obtain ⟨envPrefix, hmem, hpre⟩ := List.any_eq_true.mp h
  obtain ⟨rest, hrest⟩ := List.isPrefixOf_iff_prefix.mp hpre
  refine ⟨envPrefix, hmem, widen rest, ?_⟩
  rw [← widen_narrowName hv, map_upperUnit_widen, ← hrest, widen, widen, widen, List.map_append]

theorem mem_of_mem_recordedKeys {history : List EnvEvent} {key : NimStr}
    (h : key ∈ recordedKeys history) :
    ∃ name, EnvEvent.recorded name ∈ history ∧ envDedupKey name = key := by
  induction history using List.reverseRecOn with
  | nil => exact absurd h List.not_mem_nil
  | append_singleton history e ih =>
    have hold : key ∈ recordedKeys history →
        ∃ name, EnvEvent.recorded name ∈ history ++ [e] ∧ envDedupKey name = key := by
      intro hk
      obtain ⟨name, hname, hkey⟩ := ih hk
      exact ⟨name, List.mem_append_left _ hname, hkey⟩
    rw [recordedKeys_append] at h
    cases e with
    | cleared => exact absurd h List.not_mem_nil
    | recorded name =>
      rcases List.mem_append.mp h with h | h
      · exact hold h
      · exact ⟨name, List.mem_append_right _ List.mem_cons_self, (List.mem_singleton.mp h).symm⟩

/-- **A block of Latin-1 names that fits the bound is read completely**, in every run. -/
theorem blockComplete_of_narrow {ops : List EnvOp} {b : EnvBlock}
    (hnarrow : ∀ v ∈ blockVariables b, ∀ u ∈ v, u < 256)
    (hfits : extent b.entries ≤ MaxBlockCodeUnits) :
    BlockComplete (envRun ops).1 b (RecordedBefore (envRun ops).2) := by
  have hreached : blockReached b = blockVariables b := blockReached_of_fits hfits
  refine (blockComplete_iff _ _ _).1 ?_
  rintro v ⟨hv, _, hdeny, hbefore⟩
  refine ⟨?_, ?_, ?_⟩
  · rw [← Bool.not_eq_true]
    exact fun h => hdeny (denylisted_of_narrowName (hnarrow v hv) h)
  · rw [seen_eq_recordedKeys]
    intro hmem
    obtain ⟨name, hname, hkey⟩ := mem_of_mem_recordedKeys hmem
    refine hbefore ⟨name, hname, ?_⟩
    rw [SameVariable, map_upperUnit_widen, hkey, blockKey, ← map_upperUnit_widen,
      widen_narrowName (hnarrow v hv)]
  · rw [hreached]
    obtain ⟨i, hi, hget⟩ := List.mem_iff_getElem.mp hv
    refine ⟨i, ⟨v, hget ▸ List.getElem?_eq_getElem hi, rfl⟩, ?_⟩
    intro u hu hkey
    exact sameVariable_of_blockKey (hnarrow u (List.mem_of_mem_take hu)) (hnarrow v hv) hkey

end IoMon
