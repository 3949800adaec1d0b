/-
# Observed environment reads on Windows

`windows_interpose.nim` records a variable once, however often it is read.  What was recorded is
in `seenEnvNames`, under the upper-cased name, emptied wholesale when it holds 4096 of them.  In
front of it stands a flat table of names, filled in the same critical section, which the hooks ask
before they do anything else: 1024 slots, eight looks from the slot the hash picks, no length
field.  A comparison runs through the terminator, so that a stored name that goes on does not
match a shorter one.

`recordEnvRead` itself never suppresses a first read.  The flat table answers for a recorded name
as long as no name with a NUL byte is stored in it: with one, the terminator of the shorter name
is met inside the stored one.  No caller's C string has such a byte, but the names of a block read
can, since their code units are cut to the low byte.

`Shadows` is the invariant that makes the flat table right: what a used slot holds up to its
terminator is a name that was recorded since the last clear.  Bytes behind the terminator, left
from an earlier use of the slot, are never looked at.
-/
import Mathlib.Data.List.GetD
import IoMon.Types

namespace IoMon

open ByteText

/-! ## 1. Names and keys -/

def EnvFastSlots : Nat := 1024
def EnvFastNameMax : Nat := 96
def EnvFastProbe : Nat := 8
def ObservedEnvCacheCap : Nat := 4096

/-- The upper-case ASCII fold of a byte. -/
def upperAscii (c : UInt8) : UInt8 := if 97 ≤ c ∧ c ≤ 122 then c - 32 else c

def envDedupKey (name : NimStr) : NimStr := name.map upperAscii

def ObservedEnvDenylistPrefixes : List NimStr :=
  [str "REPRO_MONITOR_", str "IO_MON_", str "CT_SANDBOX_TOOLS_DIR"]

def isDenylistedEnvName (name : NimStr) : Bool :=
  ObservedEnvDenylistPrefixes.any fun envPrefix => startsWith (envDedupKey name) envPrefix

/-- FNV-1a over the upper-cased name. -/
def envFastHash (key : NimStr) : UInt64 :=
  key.foldl (fun h c => (h ^^^ c.toUInt64) * 0x100000001b3) 0xcbf29ce484222325

/-- The key loop over a C string, whose terminator is the end of the list or its first NUL;
`i` bytes are copied.  `none` is the result -1. -/
def envFastKeyLoop : (left i : Nat) → NimStr → Option NimStr
  | 0, _, _ => none
  | _ + 1, i, [] => if i = 0 then none else some []
  | left + 1, i, c :: t =>
    if c = 0 then (if i = 0 then none else some [])
    else (envFastKeyLoop left (i + 1) t).map (upperAscii c :: ·)

def envFastKeyFromCstr (p : Option NimStr) : Option NimStr :=
  p.bind (envFastKeyLoop EnvFastNameMax 0)

/-- The same over UTF-16 code units; a unit that is not ASCII ends it. -/
def envFastWideLoop : (left i : Nat) → List UInt16 → Option NimStr
  | 0, _, _ => none
  | _ + 1, i, [] => if i = 0 then none else some []
  | left + 1, i, u :: t =>
    if u = 0 then (if i = 0 then none else some [])
    else if 0x7F < u then none
    else (envFastWideLoop left (i + 1) t).map (upperAscii u.toUInt8 :: ·)

def envFastKeyFromWide (p : Option (List UInt16)) : Option NimStr :=
  p.bind (envFastWideLoop EnvFastNameMax 0)

/-! ## 2. The flat table -/

/-- A slot: a name array and a flag. -/
structure EnvFastEntry where
  used : Bool
  name : Nat → UInt8

abbrev EnvFast := Nat → EnvFastEntry

/-- The table at start: no slot used, every byte zero. -/
def emptyEnvFast : EnvFast := fun _ => ⟨false, fun _ => 0⟩

/-- A zero-initialised buffer with a key in it. -/
def bufOf (key : NimStr) (i : Nat) : UInt8 := key.getD i 0

/-- The comparison through the terminator. -/
def sameThrough (entry : EnvFastEntry) (key : NimStr) : Bool :=
  (List.range (key.length + 1)).all fun i => entry.name i == bufOf key i

def envFastIndex (key : NimStr) : Nat := (envFastHash key).toNat % EnvFastSlots

def envFastLookupFrom (table : EnvFast) (key : NimStr) : Nat → Nat → Option Nat
  | 0, _ => none
  | left + 1, idx =>
    if (table idx).used = false then none
    else if sameThrough (table idx) key then some idx
    else envFastLookupFrom table key left ((idx + 1) % EnvFastSlots)

def envFastLookupLocked (table : EnvFast) (key : NimStr) : Option Nat :=
  if key.length = 0 then none else envFastLookupFrom table key EnvFastProbe (envFastIndex key)

/-- The slot with the key and its terminator copied in; the bytes behind stay. -/
def storeKey (entry : EnvFastEntry) (key : NimStr) : EnvFastEntry :=
  ⟨true, fun i => if i ≤ key.length then bufOf key i else entry.name i⟩

def envFastInsertFrom (table : EnvFast) (key : NimStr) : Nat → Nat → EnvFast
  | 0, _ => table
  | left + 1, idx =>
    if (table idx).used = false then
      fun j => if j = idx then storeKey (table idx) key else table j
    else envFastInsertFrom table key left ((idx + 1) % EnvFastSlots)

def envFastInsertLocked (table : EnvFast) (key : NimStr) : EnvFast :=
  if key.length = 0 then table else envFastInsertFrom table key EnvFastProbe (envFastIndex key)

def envFastClearLocked (table : EnvFast) : EnvFast := fun i => { table i with used := false }

/-! ## 3. Recording -/

/-- What the shim holds behind `envLock`. -/
structure EnvState where
  seenEnvNames : List NimStr
  envFast : EnvFast

def initEnv : EnvState := ⟨[], emptyEnvFast⟩

/-- What a call does to the record of what was recorded. -/
inductive EnvEvent
  | cleared
  | recorded (name : NimStr)
  deriving DecidableEq, Repr

/-- A key that is copied into the flat table: one that fits it and is ASCII. -/
def fastKey (key : NimStr) : Bool :=
  decide (key.length ≤ EnvFastNameMax) && key.all fun c => decide (c ≤ 0x7F)

/-- **`recordEnvRead`**, with what it did; `live` says that the shim is initialised, has a fragment
directory and is not muted.  The record is emitted where `recorded` is. -/
def recordEnvRead (live : Bool) (s : EnvState) (name : NimStr) : EnvState × List EnvEvent :=
  if name.length = 0 then (s, [])
  else if live = false then (s, [])
  else if isDenylistedEnvName name then (s, [])
  else
    let key := envDedupKey name
    if key ∈ s.seenEnvNames then (s, [])
    else
      let full := decide (s.seenEnvNames.length ≥ ObservedEnvCacheCap)
      let seen := if full then [] else s.seenEnvNames
      let fast := if full then envFastClearLocked s.envFast else s.envFast
      (⟨seen ++ [key], if fastKey key then envFastInsertLocked fast key else fast⟩,
        (if full then [EnvEvent.cleared] else []) ++ [EnvEvent.recorded name])

def envFastSeen (s : EnvState) (key : Option NimStr) : Bool :=
  match key with
  | none => false
  | some key => (envFastLookupLocked s.envFast key).isSome

def envFastSeenCstr (s : EnvState) (p : Option NimStr) : Bool :=
  envFastSeen s (envFastKeyFromCstr p)

def envFastSeenWide (s : EnvState) (p : Option (List UInt16)) : Bool :=
  envFastSeen s (envFastKeyFromWide p)

/-! ## 4. Runs -/

inductive EnvOp
  | record (live : Bool) (name : NimStr)
  | seenCstr (p : Option NimStr)
  | seenWide (p : Option (List UInt16))
  deriving DecidableEq, Repr

/-- One operation; a query changes nothing. -/
def envStep (c : EnvState × List EnvEvent) : EnvOp → EnvState × List EnvEvent
  | .record live name =>
    ((recordEnvRead live c.1 name).1, c.2 ++ (recordEnvRead live c.1 name).2)
  | .seenCstr _ => c
  | .seenWide _ => c

/-- A run from the start: the state, and what happened. -/
def envRun (ops : List EnvOp) : EnvState × List EnvEvent := ops.foldl envStep (initEnv, [])

/-- The keys recorded since the last clear. -/
def recordedKeys (history : List EnvEvent) : List NimStr :=
  history.foldl (fun keys e =>
    match e with
    | .cleared => []
    | .recorded name => keys ++ [envDedupKey name]) []

/-- The name a C string spells: its bytes up to the terminator. -/
def cstrName (p : NimStr) : NimStr := p.takeWhile (· != 0)

/-- The name a UTF-16 string spells. -/
def wideName (p : List UInt16) : List UInt16 := p.takeWhile (· != 0)

/-- **An operation that tells the truth**: a query answers seen only for a name that was recorded
since the last clear, up to ASCII case, and a call on a live shim keeps silent about a name only
if that was recorded since the last clear. -/
def TellsTruth (c : EnvState × List EnvEvent) : EnvOp → Prop
  | .record live name =>
    live = true → name ≠ [] → isDenylistedEnvName name = false →
      EnvEvent.recorded name ∉ (recordEnvRead live c.1 name).2 →
      envDedupKey name ∈ recordedKeys c.2
  | .seenCstr p => envFastSeenCstr c.1 p = true →
      ∃ name ∈ p.map cstrName, envDedupKey name ∈ recordedKeys c.2
  | .seenWide p => envFastSeenWide c.1 p = true →
      ∃ name ∈ p.map wideName, (∀ u ∈ name, u ≤ 0x7F) ∧
        envDedupKey (name.map (·.toUInt8)) ∈ recordedKeys c.2

/-! ## 5. What a call can do -/

/-- The state after a fresh name: behind a clear, if the set is full. -/
def freshState (s : EnvState) (key : NimStr) : EnvState :=
  let full := decide (s.seenEnvNames.length ≥ ObservedEnvCacheCap)
  let seen := if full then [] else s.seenEnvNames
  let fast := if full then envFastClearLocked s.envFast else s.envFast
  ⟨seen ++ [key], if fastKey key then envFastInsertLocked fast key else fast⟩

/-- The events of a fresh name. -/
def freshEvents (s : EnvState) (name : NimStr) : List EnvEvent :=
  (if s.seenEnvNames.length ≥ ObservedEnvCacheCap then [EnvEvent.cleared] else []) ++
    [EnvEvent.recorded name]

/-- **What a call can do**: nothing, for one of four reasons, or record a fresh name. -/
theorem recordEnvRead_cases (live : Bool) (s : EnvState) (name : NimStr) :
    (recordEnvRead live s name = (s, []) ∧
      (name = [] ∨ live = false ∨ isDenylistedEnvName name = true ∨
        envDedupKey name ∈ s.seenEnvNames)) ∨
    (recordEnvRead live s name = (freshState s (envDedupKey name), freshEvents s name) ∧
      name ≠ [] ∧ live = true ∧ isDenylistedEnvName name = false ∧
        envDedupKey name ∉ s.seenEnvNames) := by
  unfold recordEnvRead
  by_cases hname : name.length = 0
  · rw [if_pos hname]
    exact Or.inl ⟨rfl, Or.inl (List.eq_nil_of_length_eq_zero hname)⟩
  rw [if_neg hname]
  by_cases hlive : live = false
  · rw [if_pos hlive]
    exact Or.inl ⟨rfl, Or.inr (Or.inl hlive)⟩
  rw [if_neg hlive]
  by_cases hdeny : isDenylistedEnvName name = true
  · rw [if_pos hdeny]
    exact Or.inl ⟨rfl, Or.inr (Or.inr (Or.inl hdeny))⟩
  rw [if_neg hdeny]
  dsimp only
  by_cases hseen : envDedupKey name ∈ s.seenEnvNames
  · rw [if_pos hseen]
    exact Or.inl ⟨rfl, Or.inr (Or.inr (Or.inr hseen))⟩
  · rw [if_neg hseen]
    refine Or.inr ⟨?_, ?_, ?_, ?_, hseen⟩
    · simp only [freshState, freshEvents, decide_eq_true_eq]
    · exact fun h => hname (by rw [h]; rfl)
    · exact Bool.not_eq_false _ ▸ hlive
    · exact Bool.not_eq_true _ ▸ hdeny

theorem recordedKeys_append (history events : List EnvEvent) :
    recordedKeys (history ++ events) = events.foldl (fun keys e =>
      match e with
      | .cleared => []
      | .recorded name => keys ++ [envDedupKey name]) (recordedKeys history) :=
  List.foldl_append

/-- The set of names is what was recorded since the last clear. -/
theorem seen_eq_recordedKeys (ops : List EnvOp) :
    (envRun ops).1.seenEnvNames = recordedKeys (envRun ops).2 := by
  induction ops using List.reverseRecOn with
  | nil => rfl
  | append_singleton ops op ih =>
    have hrun : envRun (ops ++ [op]) = envStep (envRun ops) op := by
      rw [envRun, List.foldl_append]
      rfl
    rw [hrun]
    cases op with
    | seenCstr p => exact ih
    | seenWide p => exact ih
    | record live name =>
      rw [envStep]
      rcases recordEnvRead_cases live (envRun ops).1 name with ⟨h, _⟩ | ⟨h, _⟩
      · rw [h, List.append_nil]
        exact ih
      · rw [h, recordedKeys_append, ← ih]
        by_cases hfull : (envRun ops).1.seenEnvNames.length ≥ ObservedEnvCacheCap
        · simp [freshState, freshEvents, hfull]
        · simp [freshState, freshEvents, hfull]

/-! ## 6. The flat table -/

theorem sameThrough_iff {entry : EnvFastEntry} {key : NimStr} :
    sameThrough entry key = true ↔ ∀ i ≤ key.length, entry.name i = bufOf key i := by
  rw [sameThrough, List.all_eq_true]
  simp only [List.mem_range, beq_iff_eq, Nat.lt_succ_iff]

/-- **The comparison is exact** between names without a NUL: at the end of the shorter one there
is a terminator on one side only. -/
theorem eq_of_same_through {name : Nat → UInt8} {key query : NimStr} (hkey : 0 ∉ key)
    (hquery : 0 ∉ query) (hk : ∀ i ≤ key.length, name i = bufOf key i)
    (hq : ∀ i ≤ query.length, name i = bufOf query i) : key = query := by
  have hend : ∀ (a b : NimStr), 0 ∉ b → (∀ i ≤ a.length, name i = bufOf a i) →
      (∀ i ≤ b.length, name i = bufOf b i) → b.length ≤ a.length := by
    intro a b hb ha hb'
    by_contra hlt
    rw [Nat.not_le] at hlt
    have hzero : bufOf b a.length = 0 := by
      rw [← hb' _ (Nat.le_of_lt hlt), ha _ (Nat.le_refl _), bufOf,
        List.getD_eq_default _ _ (Nat.le_refl _)]
    rw [bufOf, List.getD_eq_getElem _ _ hlt] at hzero
    exact hb (hzero ▸ List.getElem_mem hlt)
  have hlen : key.length = query.length :=
    Nat.le_antisymm (hend query key hkey hq hk) (hend key query hquery hk hq)
  refine List.ext_getElem hlen fun i hi hi' => ?_
  have h := (hk i (Nat.le_of_lt hi)).symm.trans (hq i (Nat.le_of_lt hi'))
  rwa [bufOf, bufOf, List.getD_eq_getElem _ _ hi, List.getD_eq_getElem _ _ hi'] at h

/-- What a used slot holds up to its terminator is one of the keys, and has no NUL in it. -/
def Shadows (table : EnvFast) (keys : List NimStr) : Prop :=
  ∀ idx, (table idx).used = true →
    ∃ key ∈ keys, 0 ∉ key ∧ ∀ i ≤ key.length, (table idx).name i = bufOf key i

theorem Shadows.mono {table : EnvFast} {keys keys' : List NimStr} (h : Shadows table keys)
    (hsub : keys ⊆ keys') : Shadows table keys' := by
  intro idx hused
  obtain ⟨key, hkey, hrest⟩ := h idx hused
  exact ⟨key, hsub hkey, hrest⟩

/-- After a clear no slot is used, whatever its bytes are. -/
theorem shadows_clear (table : EnvFast) (keys : List NimStr) :
    Shadows (envFastClearLocked table) keys := by
  intro idx hused
  exact absurd hused Bool.false_ne_true

theorem Shadows.insert {table : EnvFast} {keys : List NimStr} (h : Shadows table keys)
    {key : NimStr} (hkey : key ∈ keys) (hnul : 0 ∉ key) :
    Shadows (envFastInsertLocked table key) keys := by
  have hfrom : ∀ left idx, Shadows (envFastInsertFrom table key left idx) keys := by
    intro left
    induction left with
    | zero => exact fun _ => h
    | succ left ih =>
      intro idx
      rw [envFastInsertFrom]
      split
      · intro j hused
        by_cases hj : j = idx
        · refine ⟨key, hkey, hnul, ?_⟩
          intro i hi
          simp only [hj, if_true, storeKey, if_pos hi]
        · simp only [if_neg hj] at hused ⊢
          exact h j hused
      · exact ih _
  unfold envFastInsertLocked
  split
  · exact h
  · exact hfrom _ _

/-- **The flat table answers for keys only.** -/
theorem Shadows.mem_of_lookup {table : EnvFast} {keys : List NimStr} (h : Shadows table keys)
    {query : NimStr} (hnul : 0 ∉ query) (hfound : (envFastLookupLocked table query).isSome = true) :
    query ∈ keys := by
  have hfrom : ∀ left idx, (envFastLookupFrom table query left idx).isSome = true →
      query ∈ keys := by
    intro left
    induction left with
    | zero => exact fun _ hf => absurd hf Bool.false_ne_true
    | succ left ih =>
      intro idx hf
      rw [envFastLookupFrom] at hf
      split at hf
      · exact absurd hf Bool.false_ne_true
      · rename_i hused
        split at hf
        · rename_i hsame
          obtain ⟨key, hkey, hkeynul, hholds⟩ := h idx (Bool.not_eq_false _ ▸ hused)
          rwa [← eq_of_same_through hkeynul hnul hholds (sameThrough_iff.mp hsame)]
        · exact ih _ hf
  unfold envFastLookupLocked at hfound
  split at hfound
  · exact absurd hfound Bool.false_ne_true
  · exact hfrom _ _ hfound

/-! ## 7. Keys without a NUL -/

theorem upperAscii_ne_zero {c : UInt8} (h : c ≠ 0) : upperAscii c ≠ 0 := by
  unfold upperAscii
  split
  · rename_i hc
    intro h0
    have hnat := congrArg UInt8.toNat h0
    rw [UInt8.toNat_sub_of_le _ _ (Nat.le_trans (by decide) hc.1)] at hnat
    have hle := hc.1
    rw [UInt8.le_iff_toNat_le] at hle
    have h97 : (97 : UInt8).toNat = 97 := rfl
    have h32 : (32 : UInt8).toNat = 32 := rfl
    have hz : (0 : UInt8).toNat = 0 := rfl
    omega
  · exact h

theorem not_mem_envDedupKey {name : NimStr} (h : 0 ∉ name) : 0 ∉ envDedupKey name := by
  intro hmem
  obtain ⟨c, hc, h0⟩ := List.mem_map.mp hmem
  exact upperAscii_ne_zero (fun hc0 => h (hc0 ▸ hc)) h0

/-- The key of a C string is the fold of its name. -/
theorem envFastKeyLoop_eq {left i : Nat} {p key : NimStr}
    (h : envFastKeyLoop left i p = some key) : key = envDedupKey (cstrName p) := by
  induction p generalizing left i key with
  | nil =>
    cases left with
    | zero => exact absurd h (by simp [envFastKeyLoop])
    | succ left =>
      rw [envFastKeyLoop] at h
      split at h
      · exact absurd h (by simp)
      · exact (Option.some.inj h).symm
  | cons c t ih =>
    cases left with
    | zero => exact absurd h (by simp [envFastKeyLoop])
    | succ left =>
      rw [envFastKeyLoop] at h
      by_cases hc : c = 0
      · rw [if_pos hc] at h
        have hname : cstrName (c :: t) = [] := List.takeWhile_cons_of_neg (by simpa using hc)
        split at h
        · exact absurd h (by simp)
        · rw [hname]
          exact (Option.some.inj h).symm
      · rw [if_neg hc, Option.map_eq_some_iff] at h
        obtain ⟨key', hkey', rfl⟩ := h
        have hname : cstrName (c :: t) = c :: cstrName t :=
          List.takeWhile_cons_of_pos (by simpa using hc)
        rw [ih hkey', hname, envDedupKey, envDedupKey, List.map_cons]

/-- The key of a UTF-16 string is the fold of its name, which is ASCII. -/
theorem envFastWideLoop_eq {left i : Nat} {p : List UInt16} {key : NimStr}
    (h : envFastWideLoop left i p = some key) :
    (∀ u ∈ wideName p, u ≤ 0x7F) ∧ key = envDedupKey ((wideName p).map (·.toUInt8)) := by
  induction p generalizing left i key with
  | nil =>
    cases left with
    | zero => exact absurd h (by simp [envFastWideLoop])
    | succ left =>
      rw [envFastWideLoop] at h
      split at h
      · exact absurd h (by simp)
      · exact ⟨by simp [wideName], (Option.some.inj h).symm⟩
  | cons u t ih =>
    cases left with
    | zero => exact absurd h (by simp [envFastWideLoop])
    | succ left =>
      rw [envFastWideLoop] at h
      by_cases hu : u = 0
      · rw [if_pos hu] at h
        have hname : wideName (u :: t) = [] := List.takeWhile_cons_of_neg (by simpa using hu)
        split at h
        · exact absurd h (by simp)
        · rw [hname]
          exact ⟨by simp, (Option.some.inj h).symm⟩
      · rw [if_neg hu] at h
        split at h
        · exact absurd h (by simp)
        · rename_i hascii
          rw [Option.map_eq_some_iff] at h
          obtain ⟨key', hkey', rfl⟩ := h
          have hname : wideName (u :: t) = u :: wideName t :=
            List.takeWhile_cons_of_pos (by simpa using hu)
          obtain ⟨hall, hkey⟩ := ih hkey'
          rw [hname, hkey]
          refine ⟨?_, rfl⟩
          intro w hw
          rcases List.mem_cons.mp hw with rfl | hw
          · exact UInt16.not_lt.mp hascii
          · exact hall w hw

theorem not_mem_cstrName (p : NimStr) : 0 ∉ cstrName p := by
  intro h
  have h0 := List.all_eq_true.mp List.all_takeWhile 0 h
  exact absurd h0 (by decide)

/-- An ASCII unit that is not zero is not a NUL byte. -/
theorem not_mem_wideName {p : List UInt16} (hall : ∀ u ∈ wideName p, u ≤ 0x7F) :
    0 ∉ (wideName p).map (·.toUInt8) := by
  intro h
  obtain ⟨u, hu, h0⟩ := List.mem_map.mp h
  have hne := List.all_eq_true.mp List.all_takeWhile u hu
  have hle := hall u hu
  rw [bne_iff_ne] at hne
  refine hne (UInt16.toNat_inj.mp ?_)
  have hnat := congrArg UInt8.toNat h0
  rw [UInt16.toNat_toUInt8] at hnat
  rw [UInt16.le_iff_toNat_le] at hle
  have h127 : (0x7F : UInt16).toNat = 127 := rfl
  have hz : (0 : UInt16).toNat = 0 := rfl
  have hz8 : (0 : UInt8).toNat = 0 := rfl
  omega

/-! ## 8. Every run -/

/-- No name that was passed to `recordEnvRead` holds a NUL byte. -/
def NulFree (ops : List EnvOp) : Prop := ∀ live name, EnvOp.record live name ∈ ops → 0 ∉ name

/-- **The invariant of the flat table**, over a run whose recorded names have no NUL. -/
theorem shadows_run {ops : List EnvOp} (h : NulFree ops) :
    Shadows (envRun ops).1.envFast (recordedKeys (envRun ops).2) := by
  induction ops using List.reverseRecOn with
  | nil =>
    intro idx hused
    exact absurd hused Bool.false_ne_true
  | append_singleton ops op ih =>
    have hih := ih fun live name hmem => h live name (List.mem_append_left _ hmem)
    have hrun : envRun (ops ++ [op]) = envStep (envRun ops) op := by
      rw [envRun, List.foldl_append]
      rfl
    rw [← seen_eq_recordedKeys] at hih ⊢
    rw [hrun]
    cases op with
    | seenCstr p => exact hih
    | seenWide p => exact hih
    | record live name =>
      have hnul : 0 ∉ envDedupKey name :=
        not_mem_envDedupKey (h live name (List.mem_append_right _ List.mem_cons_self))
      rw [envStep]
      rcases recordEnvRead_cases live (envRun ops).1 name with ⟨hcall, _⟩ | ⟨hcall, _⟩
      · rw [hcall]
        exact hih
      · rw [hcall]
        have hkey : ∀ keys : List NimStr, envDedupKey name ∈ keys ++ [envDedupKey name] :=
          fun keys => List.mem_append_right _ List.mem_cons_self
        simp only [freshState]
        by_cases hfull : (envRun ops).1.seenEnvNames.length ≥ ObservedEnvCacheCap
        · simp only [hfull, decide_true, if_true]
          split
          · exact (shadows_clear _ _).insert (hkey _) hnul
          · exact shadows_clear _ _
        · simp only [hfull, decide_false, if_false, Bool.false_eq_true]
          have hmono := hih.mono (List.subset_append_left _ [envDedupKey name])
          split
          · exact hmono.insert (hkey _) hnul
          · exact hmono

/-- **Environment reads are deduplicated exactly**: after every run, a call keeps silent only about
what was recorded, and after every run whose recorded names have no NUL byte every query answers
seen only for what was recorded. -/
theorem envDedup_tellsTruth (ops : List EnvOp) (op : EnvOp) :
    (∀ live name, op = .record live name → TellsTruth (envRun ops) op) ∧
      (NulFree ops → TellsTruth (envRun ops) op) := by
  have hrecord : ∀ live name, TellsTruth (envRun ops) (.record live name) := by
    intro live name hlive hname hdeny hsilent
    rcases recordEnvRead_cases live (envRun ops).1 name with ⟨_, hwhy⟩ | ⟨hcall, _⟩
    · rw [← seen_eq_recordedKeys]
      rcases hwhy with h | h | h | h
      · exact absurd h hname
      · rw [hlive] at h
        exact absurd h (by decide)
      · rw [hdeny] at h
        exact absurd h (by decide)
      · exact h
    · rw [hcall] at hsilent
      exact absurd (List.mem_append_right _ List.mem_cons_self) hsilent
  refine ⟨?_, ?_⟩
  · rintro live name rfl
    exact hrecord live name
  · intro hnul
    have hshadows := shadows_run hnul
    cases op with
    | record live name => exact hrecord live name
    | seenCstr p =>
      intro hseen
      cases p with
      | none => exact absurd hseen Bool.false_ne_true
      | some p =>
        rw [envFastSeenCstr, envFastKeyFromCstr, Option.bind_some] at hseen
        cases hkey : envFastKeyLoop EnvFastNameMax 0 p with
        | none =>
          rw [hkey] at hseen
          exact absurd hseen Bool.false_ne_true
        | some key =>
          rw [hkey] at hseen
          obtain rfl := envFastKeyLoop_eq hkey
          exact ⟨cstrName p, rfl, hshadows.mem_of_lookup
            (not_mem_envDedupKey (not_mem_cstrName p)) hseen⟩
    | seenWide p =>
      intro hseen
      cases p with
      | none => exact absurd hseen Bool.false_ne_true
      | some p =>
        rw [envFastSeenWide, envFastKeyFromWide, Option.bind_some] at hseen
        cases hkey : envFastWideLoop EnvFastNameMax 0 p with
        | none =>
          rw [hkey] at hseen
          exact absurd hseen Bool.false_ne_true
        | some key =>
          rw [hkey] at hseen
          obtain ⟨hascii, rfl⟩ := envFastWideLoop_eq hkey
          exact ⟨wideName p, rfl, hascii, hshadows.mem_of_lookup
            (not_mem_envDedupKey (not_mem_wideName hascii)) hseen⟩

theorem envDedup_tellsTruth_path :
    TellsTruth (envRun [.record true (str "PATH")]) (.seenCstr (some (str "path"))) := by
  refine (envDedup_tellsTruth [.record true (str "PATH")] (.seenCstr (some (str "path")))).2 ?_
  intro live name hmem
  obtain ⟨rfl, rfl⟩ : live = true ∧ name = str "PATH" := by simpa using hmem
  decide

/-- The name of a variable as a block read cuts it: the code units of `PATH`, U+0100, `5G`. -/
def cutName : NimStr := str "PATH" ++ 0 :: str "5G"

/-- **A variable that was never recorded is answered for**: `PATH`, after the cut name. -/
theorem cutName_hides_path :
    envFastSeenCstr (envRun [.record true cutName]).1 (some (str "PATH")) = true ∧
      recordedKeys (envRun [.record true cutName]).2 = [cutName] ∧
      ¬ TellsTruth (envRun [.record true cutName]) (.seenCstr (some (str "PATH"))) := by
  have hfixed : envFastSeenCstr (envRun [.record true cutName]).1 (some (str "PATH")) = true ∧
      recordedKeys (envRun [.record true cutName]).2 = [cutName] ∧
      envDedupKey (cstrName (str "PATH")) ∉ [cutName] := by
    decide +kernel
  refine ⟨hfixed.1, hfixed.2.1, ?_⟩
  intro h
  obtain ⟨name, hname, hmem⟩ := h hfixed.1
  obtain rfl : cstrName (str "PATH") = name := Option.some.inj hname
  rw [hfixed.2.1] at hmem
  exact hfixed.2.2 hmem

end IoMon
