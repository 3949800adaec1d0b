/-
# The monitor configuration in a child's environment block

A Windows process that starts a child with an explicit environment block would start it without
the monitor's variables, unless its own block happens to define them.  The shim takes a snapshot
of its `REPRO_MONITOR_*` and `IO_MON_*` entries when it starts, once from the UTF-16 block and once
from the ANSI one, and `environmentWithMonitorConfigW` and `...A` put the missing ones behind the
caller's entries.

The procedures for the two widths are the same text; here each is one definition over an
`Alphabet`, which says what the terminator, the `=`, the ASCII fold and the low byte of a character
are.  `missingStarts_eq` is the loop over the snapshot, `environmentWithMonitorConfig_eq` the whole
procedure on a block, and `environmentWithMonitorConfig_map` why the widths agree.
-/
import IoMon.Shim.EnvBlock

namespace IoMon

open ByteText NulBlocks

/-! ## 1. The snapshot -/

/-- The characters of an environment block: its terminator, its `=`, the upper-case ASCII fold
and the low byte. -/
structure Alphabet (α : Type) where
  nul : α
  sign : α
  upper : α → α
  toByte : α → UInt8
  toByte_sign : toByte sign = 61

/-- UTF-16 code units. -/
def wide : Alphabet UInt16 := ⟨0, 61, upperUnit, (·.toUInt8), by decide⟩

/-- Bytes. -/
def ansi : Alphabet UInt8 := ⟨0, 61, upperAscii, id, rfl⟩

def monitorEnvPrefixes : List NimStr := [str "REPRO_MONITOR_", str "IO_MON_"]

def hasMonitorEnvPrefix (name : NimStr) : Bool :=
  monitorEnvPrefixes.any fun envPrefix => startsWith name envPrefix

section Widths

variable {α : Type} [DecidableEq α] (c : Alphabet α)

/-- An entry of the monitor's configuration. -/
def isMonitorEntry (entry : List α) : Bool :=
  (keyBefore c.sign entry).any fun name => hasMonitorEnvPrefix (name.map c.toByte)

/-- One arm of `captureMonitorEnvSnapshot`: the entries, each with its terminator. -/
def captureEntries (mem : List α) : List α :=
  ((blockEntries c.nul MaxBlockCodeUnits mem).filter (isMonitorEntry c)).flatMap (· ++ [c.nul])

/-! ## 2. The caller's block -/

/-- `envBlockLenW` and `envBlockLenA`. -/
def envBlockLen (limit : Nat) (src : List α) : Nat := extent (blockEntries c.nul limit src)

/-- Names of one length that agree up to ASCII case. -/
def sameName (a b : List α) : Bool :=
  decide (a.length = b.length) && (a.zip b).all fun p => c.upper p.1 == c.upper p.2

/-- `entryNameDefinedW` and `entryNameDefinedA`, for the name of a snapshot entry. -/
def entryNameDefined (limit : Nat) (blk : List α) (name : List α) : Bool :=
  (blockEntries c.nul limit blk).any fun entry =>
    (keyBefore c.sign entry).any fun a => sameName c a name

/-- An entry that begins here, up to its terminator or the end. -/
def entryHere (mem : List α) : List α := mem.takeWhile (· != c.nul)

/-- The loop over the snapshot.  A position in it is what it holds from there on. -/
def missingStarts (limit : Nat) (src : List α) : (fuel : Nat) → List α → List (List α)
  | 0, _ => []
  | _ + 1, [] => []
  | fuel + 1, a :: t =>
    let entry := entryHere c (a :: t)
    let name := entry.takeWhile (· != c.sign)
    (if 0 < name.length ∧ name.length < entry.length ∧ entryNameDefined c limit src name = false
      then [a :: t] else []) ++
      missingStarts limit src fuel ((a :: t).drop (entry.length + 1))

/-- **`environmentWithMonitorConfig`**; `none` is the result `nil`. -/
def environmentWithMonitorConfig (snapshot : List α) (lpEnvironment : Option (List α)) :
    Option (List α) :=
  match lpEnvironment with
  | none => none
  | some src =>
    if snapshot.length = 0 then none
    else
      let srcLen := envBlockLen c MaxBlockCodeUnits src
      if srcLen ≥ MaxBlockCodeUnits then none
      else
        let starts := missingStarts c srcLen src snapshot.length snapshot
        if starts.length = 0 then none
        else
          some (src.take srcLen ++ starts.flatMap (fun start => entryHere c start ++ [c.nul]) ++
            [c.nul])

end Widths

/-- What the shim remembers of its own environment. -/
structure MonitorEnv where
  monitorEnvSnapshotW : List UInt16
  monitorEnvSnapshotA : List UInt8

/-- **`captureMonitorEnvSnapshot`**, from the two blocks the system returns. -/
def captureMonitorEnvSnapshot (blockW : Option (List UInt16)) (blockA : Option (List UInt8)) :
    MonitorEnv :=
  ⟨(blockW.map (captureEntries wide)).getD [], (blockA.map (captureEntries ansi)).getD []⟩

def environmentWithMonitorConfigW (env : MonitorEnv) (lpEnvironment : Option (List UInt16)) :
    Option (List UInt16) :=
  environmentWithMonitorConfig wide env.monitorEnvSnapshotW lpEnvironment

def environmentWithMonitorConfigA (env : MonitorEnv) (lpEnvironment : Option (List UInt8)) :
    Option (List UInt8) :=
  environmentWithMonitorConfig ansi env.monitorEnvSnapshotA lpEnvironment

/-! ## 3. What a child must get -/

section Spec

variable {α : Type} [DecidableEq α] (c : Alphabet α)

/-- The block defines this name, up to ASCII case. -/
def Defines (b : NulBlock c.nul) (name : List α) : Prop :=
  ∃ e ∈ b.entries, ∃ a ∈ keyBefore c.sign e, a.map c.upper = name.map c.upper

/-- The entries of the snapshot that a process with this block takes. -/
def snapshotEntries (own : NulBlock c.nul) : List (List α) :=
  (seen MaxBlockCodeUnits 0 own.entries).filter (isMonitorEntry c)

/-- The block defines the name of this entry. -/
def DefinesEntry (b : NulBlock c.nul) (entry : List α) : Prop :=
  ∃ name ∈ keyBefore c.sign entry, Defines c b name

instance (b : NulBlock c.nul) (entry : List α) : Decidable (DefinesEntry c b entry) :=
  decidable_of_iff
    ((keyBefore c.sign entry).any (fun name => b.entries.any fun e =>
      (keyBefore c.sign e).any fun a => decide (a.map c.upper = name.map c.upper)) = true)
    (by simp only [DefinesEntry, Defines, Option.any_eq_true, List.any_eq_true,
      decide_eq_true_eq, Option.mem_def])

/-- The entries of the snapshot that the caller does not define. -/
def addedEntries (own b : NulBlock c.nul) : List (List α) :=
  (snapshotEntries c own).filter fun entry => decide (¬ DefinesEntry c b entry)

/-- **The configuration is carried and nothing else changes**: no block if every entry of the
snapshot has its name defined, and otherwise the caller's entries and behind them the entries
whose names it does not define; asked about its own answer the procedure adds nothing. -/
structure CarriesConfig (own b : NulBlock c.nul)
    (answer : Option (List α) → Option (List α)) (mem : List α) : Prop where
  nil_iff : answer (some mem) = none ↔ ∀ entry ∈ snapshotEntries c own, DefinesEntry c b entry
  block : ∀ out, answer (some mem) = some out →
    ∃ r : NulBlock c.nul, out = r.units ∧ r.entries = b.entries ++ addedEntries c own b
  idempotent : ∀ out, answer (some mem) = some out → ∀ rest, answer (some (out ++ rest)) = none

end Spec

/-! ## 4. The loops on a block -/

section Loops

variable {α : Type} [DecidableEq α] (c : Alphabet α)

theorem sameName_iff (a b : List α) : sameName c a b = true ↔ a.map c.upper = b.map c.upper := by
  rw [sameName, Bool.and_eq_true, decide_eq_true_iff]
  induction a generalizing b with
  | nil =>
    cases b with
    | nil => simp
    | cons y b => simp
  | cons x a ih =>
    cases b with
    | nil => simp
    | cons y b =>
      have h := ih b
      simp only [List.length_cons, Nat.add_right_cancel_iff, List.zip_cons_cons, List.all_cons,
        Bool.and_eq_true, beq_iff_eq, List.map_cons, List.cons.injEq]
      rw [← h]
      exact and_left_comm

/-- The name scan asks the block whether it defines the name. -/
theorem entryNameDefined_units {b : NulBlock c.nul} {limit : Nat} (hfits : extent b.entries ≤ limit)
    (rest name : List α) :
    entryNameDefined c limit (b.units ++ rest) name = true ↔ Defines c b name := by
  rw [entryNameDefined, blockEntries_units, seen_of_fits (by rwa [Nat.zero_add])]
  simp only [List.any_eq_true, Option.any_eq_true, sameName_iff, Defines, Option.mem_def]

theorem envBlockLen_units {b : NulBlock c.nul} {limit : Nat} (hfits : extent b.entries ≤ limit)
    (rest : List α) : envBlockLen c limit (b.units ++ rest) = extent b.entries := by
  rw [envBlockLen, blockEntries_units, seen_of_fits (by rwa [Nat.zero_add])]

theorem le_envBlockLen_units {b : NulBlock c.nul} {limit : Nat} (hlong : limit ≤ extent b.entries)
    (rest : List α) : limit ≤ envBlockLen c limit (b.units ++ rest) := by
  rw [envBlockLen, blockEntries_units]
  have h : limit ≤ 0 + extent (seen limit 0 b.entries) :=
    le_extent_seen (by rwa [Nat.zero_add])
  rwa [Nat.zero_add] at h

theorem entryHere_terminated {e : List α} (he : c.nul ∉ e) (rest : List α) :
    entryHere c (e ++ c.nul :: rest) = e := by
  have h := takeWhile_take_nul he rest (e.length + (rest.length + 1))
  rwa [List.take_of_length_le (by simp), List.take_of_length_le (Nat.le_add_right _ _)] at h

theorem hasMonitorEnvPrefix_sign (t : NimStr) : hasMonitorEnvPrefix (61 :: t) = false := by
  have hhead : ∀ envPrefix ∈ monitorEnvPrefixes,
      envPrefix.head? ≠ some 61 ∧ envPrefix ≠ [] := by decide
  rw [← Bool.not_eq_true, hasMonitorEnvPrefix, List.any_eq_true]
  rintro ⟨envPrefix, hmem, hstarts⟩
  obtain ⟨hne, hnil⟩ := hhead envPrefix hmem
  obtain ⟨a, p, rfl⟩ := List.exists_cons_of_ne_nil hnil
  have ha := (List.cons_prefix_cons.mp (List.isPrefixOf_iff_prefix.mp hstarts)).1
  exact hne (congrArg some ha)

/-- The name of an entry of the configuration begins with a letter: its first `=` is the one that
ends the name. -/
theorem name_of_monitorEntry {entry : List α} (h : isMonitorEntry c entry = true) :
    ∃ name, keyBefore c.sign entry = some name ∧ entry.takeWhile (· != c.sign) = name := by
  obtain ⟨name, hname, hprefix⟩ := (Option.any_eq_true _ _).mp h
  refine ⟨name, hname, ?_⟩
  cases entry with
  | nil => exact absurd hname (by simp [keyBefore])
  | cons a t =>
    rw [keyBefore_cons] at hname
    split at hname
    · obtain rfl := Option.some.inj hname
      have ha : (a != c.sign) = true := by
        rw [bne_iff_ne]
        rintro rfl
        rw [List.map_cons, c.toByte_sign, hasMonitorEnvPrefix_sign] at hprefix
        exact absurd hprefix Bool.false_ne_true
      exact List.takeWhile_cons_of_pos ha
    · exact absurd hname (by simp)

/-- An entry that a snapshot can hold. -/
def SnapshotEntry (entry : List α) : Prop :=
  entry ≠ [] ∧ c.nul ∉ entry ∧ isMonitorEntry c entry = true

theorem snapshotEntry_of_mem {own : NulBlock c.nul} {entry : List α}
    (h : entry ∈ snapshotEntries c own) : SnapshotEntry c entry := by
  obtain ⟨hseen, hmonitor⟩ := List.mem_filter.mp h
  obtain ⟨hne, hnul⟩ := seen_wf own.wf entry hseen
  exact ⟨hne, hnul, hmonitor⟩

/-- **The loop over the snapshot** stops at the entries whose names the caller does not define. -/
theorem missingStarts_eq {b : NulBlock c.nul} (rest : List α) {es : List (List α)}
    (hes : ∀ e ∈ es, SnapshotEntry c e) {fuel : Nat} (hfuel : extent es ≤ fuel) :
    (missingStarts c (extent b.entries) (b.units ++ rest) fuel (es.flatMap (· ++ [c.nul]))).map
        (entryHere c) = es.filter fun e => decide (¬ DefinesEntry c b e) := by
  induction es generalizing fuel with
  | nil =>
    cases fuel with
    | zero => rfl
    | succ fuel => rfl
  | cons e es ih =>
    obtain ⟨hne, hnul, hmonitor⟩ := hes e List.mem_cons_self
    obtain ⟨name, hname, htake⟩ := name_of_monitorEntry c hmonitor
    obtain ⟨a, t, rfl⟩ := List.exists_cons_of_ne_nil hne
    rw [extent_cons] at hfuel
    obtain ⟨fuel, rfl⟩ : ∃ k, fuel = k + 1 := Nat.exists_eq_succ_of_ne_zero (by omega)
    have hmem : ((a :: t) :: es).flatMap (· ++ [c.nul]) =
        (a :: t) ++ c.nul :: es.flatMap (· ++ [c.nul]) := by
      rw [List.flatMap_cons, List.append_assoc, List.singleton_append]
    have hfuel' : extent es ≤ fuel := by omega
    have hrest := ih (fun e' he' => hes e' (List.mem_cons_of_mem _ he')) hfuel'
    generalize es.flatMap (· ++ [c.nul]) = behind at hmem hrest
    have hhere : entryHere c (a :: (t ++ c.nul :: behind)) = a :: t :=
      entryHere_terminated c hnul behind
    have hdrop : (a :: (t ++ c.nul :: behind)).drop ((a :: t).length + 1) = behind := by
      rw [← List.cons_append, ← List.drop_drop, List.drop_left, List.drop_succ_cons,
        List.drop_zero]
    have hpos : 0 < name.length := List.length_pos_iff.mpr (keyBefore_ne_nil hname)
    have hstop : (0 < name.length ∧ name.length < (a :: t).length ∧
        entryNameDefined c (extent b.entries) (b.units ++ rest) name = false) ↔
        ¬ DefinesEntry c b (a :: t) := by
      rw [DefinesEntry, hname, ← Bool.not_eq_true, entryNameDefined_units c (Nat.le_refl _)]
      simp only [Option.mem_some_iff, exists_eq_left', hpos, keyBefore_length_lt hname, true_and]
    rw [hmem, List.cons_append, missingStarts]
    simp only [hhere, htake, hdrop]
    rw [List.map_append, hrest, List.filter_cons]
    by_cases hmiss : ¬ DefinesEntry c b (a :: t)
    · rw [if_pos (hstop.mpr hmiss), if_pos (decide_eq_true hmiss), List.map_singleton, hhere]
      rfl
    · rw [if_neg (fun h => hmiss (hstop.mp h)), if_neg (by rwa [decide_eq_true_iff])]
      rfl

end Loops

/-! ## 5. The procedure on a block -/

section Procedure

variable {α : Type} [DecidableEq α] (c : Alphabet α)

theorem captureEntries_units (own : NulBlock c.nul) (rest : List α) :
    captureEntries c (own.units ++ rest) = (snapshotEntries c own).flatMap (· ++ [c.nul]) := by
  rw [captureEntries, blockEntries_units, snapshotEntries]

/-- **The procedure on a block within the bound.** -/
theorem environmentWithMonitorConfig_eq {own b : NulBlock c.nul}
    (hfits : extent b.entries < MaxBlockCodeUnits) (ownRest rest : List α) :
    environmentWithMonitorConfig c (captureEntries c (own.units ++ ownRest))
        (some (b.units ++ rest)) =
      if addedEntries c own b = [] then none
      else some ((b.entries ++ addedEntries c own b).flatMap (· ++ [c.nul]) ++ [c.nul]) := by
  rw [captureEntries_units]
  have hstarts := missingStarts_eq c (b := b) rest
    (fun e (he : e ∈ snapshotEntries c own) => snapshotEntry_of_mem c he)
    (Nat.le_of_eq (length_flatMap_terminated c.nul _).symm)
  rw [← addedEntries] at hstarts
  generalize hsnap : (snapshotEntries c own).flatMap (· ++ [c.nul]) = snapshot at hstarts
  simp only [environmentWithMonitorConfig, envBlockLen_units c (Nat.le_of_lt hfits)]
  generalize missingStarts c (extent b.entries) (b.units ++ rest) snapshot.length snapshot =
    starts at hstarts
  have hnone : starts.length = 0 ↔ addedEntries c own b = [] := by
    rw [← hstarts, List.map_eq_nil_iff, List.length_eq_zero_iff]
  have hcopy : starts.flatMap (fun start => entryHere c start ++ [c.nul]) =
      (addedEntries c own b).flatMap (· ++ [c.nul]) := by
    rw [← hstarts, List.flatMap_map]
  have htake : (b.units ++ rest).take (extent b.entries) = b.entries.flatMap (· ++ [c.nul]) := by
    rw [NulBlock.units, List.append_assoc, ← length_flatMap_terminated c.nul, List.take_left]
  rw [if_neg (Nat.not_le.mpr hfits), hcopy, htake, ← List.flatMap_append]
  by_cases hadded : addedEntries c own b = []
  · rw [if_pos (hnone.mpr hadded), if_pos hadded, ite_self]
  · have hsnapshot : ¬ snapshot.length = 0 := by
      intro h
      rw [← hsnap, length_flatMap_terminated, extent_eq_zero_iff] at h
      exact hadded (by rw [addedEntries, h, List.filter_nil])
    rw [if_neg hsnapshot, if_neg (fun h => hadded (hnone.mp h)), if_neg hadded]

/-- A block that reaches the bound is passed on as it is. -/
theorem environmentWithMonitorConfig_of_long {b : NulBlock c.nul}
    (hlong : MaxBlockCodeUnits ≤ extent b.entries) (snapshot rest : List α) :
    environmentWithMonitorConfig c snapshot (some (b.units ++ rest)) = none := by
  simp only [environmentWithMonitorConfig]
  rw [if_pos (le_envBlockLen_units c hlong rest), ite_self]

theorem addedEntries_eq_nil_iff {own b : NulBlock c.nul} :
    addedEntries c own b = [] ↔ ∀ entry ∈ snapshotEntries c own, DefinesEntry c b entry := by
  rw [addedEntries, List.filter_eq_nil_iff]
  refine forall₂_congr fun entry _ => ?_
  rw [decide_eq_true_iff, not_not]

/-- The block with the configuration in it. -/
def configuredBlock (own b : NulBlock c.nul) : NulBlock c.nul where
  entries := b.entries ++ addedEntries c own b
  wf := by
    intro e he
    rcases List.mem_append.mp he with he | he
    · exact b.wf e he
    · obtain ⟨hne, hnul, _⟩ := snapshotEntry_of_mem c (List.mem_of_mem_filter he)
      exact ⟨hne, hnul⟩

/-- It defines every name of the snapshot: the caller did, or the entry itself was added. -/
theorem configuredBlock_defines (own b : NulBlock c.nul) :
    ∀ entry ∈ snapshotEntries c own, DefinesEntry c (configuredBlock c own b) entry := by
  intro entry hentry
  by_cases hb : DefinesEntry c b entry
  · obtain ⟨name, hname, e, he, hdef⟩ := hb
    exact ⟨name, hname, e, List.mem_append_left _ he, hdef⟩
  · obtain ⟨_, _, hmonitor⟩ := snapshotEntry_of_mem c hentry
    obtain ⟨name, hname, _⟩ := name_of_monitorEntry c hmonitor
    have hadded : entry ∈ addedEntries c own b :=
      List.mem_filter.mpr ⟨hentry, decide_eq_true hb⟩
    exact ⟨name, hname, entry, List.mem_append_right _ hadded, name, hname, rfl⟩

/-- **The procedure carries the configuration**, for every block within the bound. -/
theorem carriesConfig {own b : NulBlock c.nul} (hfits : extent b.entries < MaxBlockCodeUnits)
    (ownRest rest : List α) :
    CarriesConfig c own b
      (environmentWithMonitorConfig c (captureEntries c (own.units ++ ownRest)))
      (b.units ++ rest) := by
  have heq : environmentWithMonitorConfig c (captureEntries c (own.units ++ ownRest))
      (some (b.units ++ rest)) = if addedEntries c own b = [] then none
        else some ((b.entries ++ addedEntries c own b).flatMap (· ++ [c.nul]) ++ [c.nul]) :=
    environmentWithMonitorConfig_eq c hfits ownRest rest
  have hout : ∀ out, environmentWithMonitorConfig c (captureEntries c (own.units ++ ownRest))
      (some (b.units ++ rest)) = some out → out = (configuredBlock c own b).units := by
    intro out h
    rw [heq] at h
    split at h
    · exact absurd h (Option.some_ne_none out).symm
    · exact (Option.some.inj h).symm
  refine ⟨?_, ?_, ?_⟩
  · rw [heq, ← addedEntries_eq_nil_iff]
    split
    · rename_i h
      exact ⟨fun _ => h, fun _ => rfl⟩
    · rename_i h
      exact ⟨fun h' => absurd h' (Option.some_ne_none _), fun h' => absurd h' h⟩
  · exact fun out h => ⟨configuredBlock c own b, hout out h, rfl⟩
  · intro out h rest'
    rw [hout out h]
    rcases Nat.lt_or_ge (extent (configuredBlock c own b).entries) MaxBlockCodeUnits with
      hlt | hlong
    · rw [environmentWithMonitorConfig_eq c hlt ownRest rest', if_pos]
      exact (addedEntries_eq_nil_iff c).mpr (configuredBlock_defines c own b)
    · exact environmentWithMonitorConfig_of_long c hlong _ rest'

end Procedure

/-! ## 6. The two widths -/

section Agreement

variable {α β : Type} [DecidableEq α] [DecidableEq β]

/-- The characters of one alphabet within another one. -/
structure Embeds (c : Alphabet α) (d : Alphabet β) (f : α → β) : Prop where
  inj : Function.Injective f
  nul : f c.nul = d.nul
  sign : f c.sign = d.sign
  upper : ∀ a, d.upper (f a) = f (c.upper a)
  toByte : ∀ a, d.toByte (f a) = c.toByte a

theorem embeds_toUInt16 : Embeds ansi wide UInt8.toUInt16 := by
  refine ⟨?_, rfl, rfl, upperUnit_widen, ?_⟩
  · intro a b h
    have hnat := congrArg UInt16.toNat h
    rw [UInt8.toNat_toUInt16, UInt8.toNat_toUInt16] at hnat
    exact UInt8.toNat_inj.mp hnat
  · exact fun a => UInt8.toUInt8_toUInt16 a

variable {c : Alphabet α} {d : Alphabet β} {f : α → β}

theorem Embeds.isMonitorEntry_map (h : Embeds c d f) (e : List α) :
    isMonitorEntry d (e.map f) = isMonitorEntry c e := by
  rw [isMonitorEntry, isMonitorEntry, ← h.sign, keyBefore_map h.inj, Option.any_map]
  congr 1
  funext name
  rw [List.map_map]
  congr 1
  exact List.map_congr_left fun a _ => h.toByte a

theorem Embeds.captureEntries_map (h : Embeds c d f) (mem : List α) :
    captureEntries d (mem.map f) = (captureEntries c mem).map f := by
  have hsame : isMonitorEntry d ∘ List.map f = isMonitorEntry c := funext h.isMonitorEntry_map
  rw [captureEntries, captureEntries, ← h.nul, blockEntries_map h.inj, List.filter_map, hsame,
    flatMap_terminated_map]

theorem Embeds.sameName_map (h : Embeds c d f) (a b : List α) :
    sameName d (a.map f) (b.map f) = sameName c a b := by
  rw [Bool.eq_iff_iff, sameName_iff, sameName_iff, List.map_map, List.map_map]
  have hupper : d.upper ∘ f = f ∘ c.upper := funext h.upper
  rw [hupper, ← List.map_map, ← List.map_map]
  exact (List.map_injective_iff.mpr h.inj).eq_iff

theorem Embeds.entryNameDefined_map (h : Embeds c d f) (limit : Nat) (blk name : List α) :
    entryNameDefined d limit (blk.map f) (name.map f) = entryNameDefined c limit blk name := by
  rw [entryNameDefined, entryNameDefined, ← h.nul, blockEntries_map h.inj, List.any_map]
  congr 1
  funext e
  rw [Function.comp_apply, ← h.sign, keyBefore_map h.inj, Option.any_map]
  congr 1
  funext a
  exact h.sameName_map a name

theorem Embeds.entryHere_map (h : Embeds c d f) (mem : List α) :
    entryHere d (mem.map f) = (entryHere c mem).map f := by
  rw [entryHere, entryHere, ← h.nul, takeWhile_map_ne h.inj]

theorem Embeds.missingStarts_map (h : Embeds c d f) (limit fuel : Nat) (src snapshot : List α) :
    missingStarts d limit (src.map f) fuel (snapshot.map f) =
      (missingStarts c limit src fuel snapshot).map (List.map f) := by
  induction fuel generalizing snapshot with
  | zero => rfl
  | succ fuel ih =>
    cases snapshot with
    | nil => rfl
    | cons a t =>
      rw [List.map_cons, missingStarts, missingStarts]
      simp only [← List.map_cons, h.entryHere_map, ← h.sign, takeWhile_map_ne h.inj,
        List.length_map, h.entryNameDefined_map, ← List.map_drop, ih, List.map_append]
      congr 1
      split <;> rfl

/-- **The widths agree**: the wide procedure on widened blocks gives the widened answer. -/
theorem Embeds.environmentWithMonitorConfig_map (h : Embeds c d f) (own src : List α) :
    environmentWithMonitorConfig d (captureEntries d (own.map f)) (some (src.map f)) =
      (environmentWithMonitorConfig c (captureEntries c own) (some src)).map (List.map f) := by
  have hlen : envBlockLen d MaxBlockCodeUnits (src.map f) =
      envBlockLen c MaxBlockCodeUnits src := by
    rw [envBlockLen, envBlockLen, ← h.nul, blockEntries_map h.inj, extent_map]
  rw [h.captureEntries_map]
  generalize captureEntries c own = snapshot
  simp only [environmentWithMonitorConfig, List.length_map, hlen, h.missingStarts_map]
  split
  · rfl
  split
  · rfl
  split
  · rfl
  · have hcopy : ∀ starts : List (List α),
        (starts.map (List.map f)).flatMap (fun start => entryHere d start ++ [d.nul]) =
          (starts.flatMap fun start => entryHere c start ++ [c.nul]).map f := by
      intro starts
      rw [List.flatMap_map, List.map_flatMap]
      refine congrArg (List.flatMap · starts) (funext fun start => ?_)
      rw [h.entryHere_map, List.map_append, List.map_singleton, h.nul]
    rw [hcopy, Option.map_some, List.map_append, List.map_append, List.map_take,
      List.map_singleton, h.nul]

end Agreement

/-! ## 7. The two procedures -/

/-- **The configuration reaches every child**: both procedures carry it and change nothing else,
and on one and the same block, as bytes and as UTF-16 units, they give the same answer. -/
theorem environmentWithMonitorConfig_carries :
    (∀ (own b : NulBlock wide.nul) (ownRest rest : List UInt16) (blockA : Option (List UInt8)),
      extent b.entries < MaxBlockCodeUnits →
      CarriesConfig wide own b
        (environmentWithMonitorConfigW
          (captureMonitorEnvSnapshot (some (own.units ++ ownRest)) blockA)) (b.units ++ rest)) ∧
    (∀ (own b : NulBlock ansi.nul) (ownRest rest : List UInt8) (blockW : Option (List UInt16)),
      extent b.entries < MaxBlockCodeUnits →
      CarriesConfig ansi own b
        (environmentWithMonitorConfigA
          (captureMonitorEnvSnapshot blockW (some (own.units ++ ownRest)))) (b.units ++ rest)) ∧
    ∀ own src : List UInt8,
      let env := captureMonitorEnvSnapshot (some (own.map UInt8.toUInt16)) (some own)
      environmentWithMonitorConfigW env (some (src.map UInt8.toUInt16)) =
        (environmentWithMonitorConfigA env (some src)).map (List.map UInt8.toUInt16) := by
  refine ⟨?_, ?_, ?_⟩
  · intro own b ownRest rest blockA hfits
    exact carriesConfig wide hfits ownRest rest
  · intro own b ownRest rest blockW hfits
    exact carriesConfig ansi hfits ownRest rest
  · intro own src
    exact embeds_toUInt16.environmentWithMonitorConfig_map own src

/-- The block of a monitored process. -/
def monitoredBlock : NulBlock wide.nul :=
  ⟨[widen (str "IO_MON_FRAGMENT_DIR=f"), widen (str "REPRO_MONITOR_SESSION=s"), widen (str "A=1")],
    by decide +kernel⟩

/-- The block it gives its child, with a session of its own. -/
def childBlock : NulBlock wide.nul :=
  ⟨[widen (str "=C:=C:"), widen (str "repro_monitor_session=t")], by decide +kernel⟩

/-- The child keeps its session and gets the fragment directory. -/
theorem environmentWithMonitorConfig_carries_fragmentDir :
    ∃ r : NulBlock wide.nul,
      environmentWithMonitorConfigW (captureMonitorEnvSnapshot (some monitoredBlock.units) none)
        childBlock.units = some r.units ∧
      r.entries = [widen (str "=C:=C:"), widen (str "repro_monitor_session=t"),
        widen (str "IO_MON_FRAGMENT_DIR=f")] := by
  have h := environmentWithMonitorConfig_carries.1 monitoredBlock childBlock [] [] none
    (by decide +kernel)
  rw [List.append_nil, List.append_nil] at h
  cases hout : environmentWithMonitorConfigW
      (captureMonitorEnvSnapshot (some monitoredBlock.units) none) childBlock.units with
  | none => exact absurd (h.nil_iff.mp hout) (by decide +kernel)
  | some out =>
    obtain ⟨r, rfl, hr⟩ := h.block out hout
    exact ⟨r, rfl, hr.trans (by decide +kernel)⟩

end IoMon
