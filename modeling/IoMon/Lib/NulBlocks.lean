/-
# Blocks of terminated entries

A block in memory is a sequence of entries, each with a terminator behind it, and one terminator
more: an empty entry ends it.  A reader walks it and looks at no position from `limit` on, so that
an entry across the bound is cut and nothing behind it is seen.

`blockEntries_units` says what a walk sees of a block, whatever the memory behind it holds, and
`seen_of_fits` that it is the whole block when the block is within the bound.  `keyBefore` is the
key of a `key=value` entry whose first character is always part of the key.
-/
import Mathlib.Algebra.Ring.Nat
import Mathlib.Data.List.Basic

namespace NulBlocks

/-! ## 1. Blocks and walks -/

section Walk

variable {α : Type*} [DecidableEq α]

/-- A well-formed block: entries that are not empty and hold no terminator. -/
structure NulBlock {α : Type*} (nul : α) where
  entries : List (List α)
  wf : ∀ e ∈ entries, e ≠ [] ∧ nul ∉ e

/-- The block in memory: every entry with its terminator, then the empty one. -/
def NulBlock.units {α : Type*} {nul : α} (b : NulBlock nul) : List α :=
  b.entries.flatMap (· ++ [nul]) ++ [nul]

/-- How far entries and their terminators reach. -/
def extent {α : Type*} (es : List (List α)) : Nat := (es.map fun e => e.length + 1).sum

/-- The entries that a walk sees from position `i` on. -/
def walk (nul : α) (limit : Nat) : (fuel i : Nat) → List α → List (List α)
  | 0, _, _ => []
  | fuel + 1, i, mem =>
    if i < limit then
      match mem with
      | [] => []
      | c :: t =>
        if c = nul then []
        else
          let entry := ((c :: t).take (limit - i)).takeWhile (· != nul)
          entry :: walk nul limit fuel (i + (entry.length + 1))
            ((c :: t).drop (entry.length + 1))
    else []

/-- The walk from the start; a turn moves on by a position at least. -/
def blockEntries (nul : α) (limit : Nat) (mem : List α) : List (List α) :=
  walk nul limit limit 0 mem

/-- What of the entries lies below the bound, when the first one begins at `i`. -/
def seen {α : Type*} (limit : Nat) : (i : Nat) → List (List α) → List (List α)
  | _, [] => []
  | i, e :: es => if i < limit then e.take (limit - i) :: seen limit (i + (e.length + 1)) es else []

theorem walk_of_ge {nul : α} {limit i : Nat} (h : limit ≤ i) (fuel : Nat) (mem : List α) :
    walk nul limit fuel i mem = [] := by
  cases fuel with
  | zero => rfl
  | succ fuel => rw [walk.eq_def]; exact if_neg (Nat.not_lt.mpr h)

theorem seen_of_ge {α : Type*} {limit i : Nat} (h : limit ≤ i) (es : List (List α)) :
    seen limit i es = [] := by
  cases es with
  | nil => rfl
  | cons e es => rw [seen, if_neg (Nat.not_lt.mpr h)]

/-- The scan of one entry: it ends at the terminator or at the bound. -/
theorem takeWhile_take_nul {nul : α} {e : List α} (he : nul ∉ e) (rest : List α) (m : Nat) :
    ((e ++ nul :: rest).take m).takeWhile (· != nul) = e.take m := by
  have hnone : ∀ c ∈ e, (c != nul) = true := by
    intro c hc
    rw [bne_iff_ne]
    exact fun h => he (h ▸ hc)
  have hstop : ∀ l : List α, (nul :: l).takeWhile (· != nul) = [] :=
    fun l => List.takeWhile_cons_of_neg (by rw [bne_self_eq_false]; exact Bool.false_ne_true)
  rcases Nat.lt_or_ge e.length m with hm | hm
  · obtain ⟨k, rfl⟩ := Nat.exists_eq_add_of_lt hm
    rw [Nat.add_assoc, List.take_length_add_append, List.take_succ_cons,
      List.takeWhile_append_of_pos hnone, hstop, List.append_nil,
      List.take_of_length_le (Nat.le_add_right _ _)]
  · rw [List.take_append_of_le_length hm]
    have htake : ∀ c ∈ e.take m, (c != nul) = true :=
      fun c hc => hnone c (List.mem_of_mem_take hc)
    have h : (e.take m ++ []).takeWhile (· != nul) = e.take m ++ [].takeWhile (· != nul) :=
      List.takeWhile_append_of_pos htake
    rwa [List.append_nil, List.takeWhile_nil, List.append_nil] at h

theorem walk_eq {nul : α} {limit : Nat} (rest : List α) {es : List (List α)}
    (hwf : ∀ e ∈ es, e ≠ [] ∧ nul ∉ e) : ∀ {fuel i : Nat}, limit ≤ i + fuel →
      walk nul limit fuel i (es.flatMap (· ++ [nul]) ++ nul :: rest) = seen limit i es := by
  induction es with
  | nil =>
    intro fuel i _
    cases fuel with
    | zero => rfl
    | succ fuel =>
      rw [List.flatMap_nil, List.nil_append, walk.eq_def, seen]
      dsimp only
      rw [if_pos rfl]
      split <;> rfl
  | cons e es ih =>
    intro fuel i hfuel
    obtain ⟨hne, hnul⟩ := hwf e List.mem_cons_self
    rcases Nat.lt_or_ge i limit with hi | hi
    · obtain ⟨fuel, rfl⟩ : ∃ k, fuel = k + 1 := Nat.exists_eq_succ_of_ne_zero (by omega)
      obtain ⟨c, t, rfl⟩ := List.exists_cons_of_ne_nil hne
      have hc : c ≠ nul := fun h => hnul (h ▸ List.mem_cons_self)
      have hmem : ((c :: t) :: es).flatMap (· ++ [nul]) ++ nul :: rest =
          (c :: t) ++ nul :: (es.flatMap (· ++ [nul]) ++ nul :: rest) := by
        rw [List.flatMap_cons, List.append_assoc, List.append_assoc]
        rfl
      generalize es.flatMap (· ++ [nul]) ++ nul :: rest = behind at hmem ih
      rw [hmem, List.cons_append, walk.eq_def]
      dsimp only
      rw [if_pos hi, if_neg hc, ← List.cons_append, takeWhile_take_nul hnul, seen, if_pos hi]
      congr 1
      rcases Nat.lt_or_ge (limit - i) (c :: t).length with hcut | hwhole
      · -- the bound falls into the entry: nothing behind it is looked at
        rw [List.length_take_of_le (Nat.le_of_lt hcut), walk_of_ge (by omega),
          seen_of_ge (by omega)]
      · have hdrop : ((c :: t) ++ nul :: behind).drop ((c :: t).length + 1) = behind := by
          rw [← List.drop_drop, List.drop_left, List.drop_succ_cons, List.drop_zero]
        rw [List.take_of_length_le hwhole, hdrop]
        exact ih (fun e' he' => hwf e' (List.mem_cons_of_mem _ he')) (by omega)
    · rw [walk_of_ge hi, seen_of_ge hi]

/-- **A walk sees what of the block lies below its bound**, whatever stands behind the block. -/
theorem blockEntries_units {nul : α} (b : NulBlock nul) (limit : Nat) (rest : List α) :
    blockEntries nul limit (b.units ++ rest) = seen limit 0 b.entries := by
  rw [NulBlock.units, List.append_assoc, List.singleton_append]
  exact walk_eq rest b.wf (Nat.le_of_eq (Nat.zero_add _).symm)

end Walk

/-! ## 2. What lies below the bound -/

section Seen

variable {α : Type*}

theorem extent_cons (e : List α) (es : List (List α)) :
    extent (e :: es) = e.length + 1 + extent es := by
  rw [extent, List.map_cons, List.sum_cons, extent]

theorem extent_eq_zero_iff {es : List (List α)} : extent es = 0 ↔ es = [] := by
  cases es with
  | nil => exact ⟨fun _ => rfl, fun _ => rfl⟩
  | cons e es =>
    rw [extent_cons]
    exact ⟨fun h => absurd h (by omega), fun h => absurd h (List.cons_ne_nil _ _)⟩

theorem length_flatMap_terminated (nul : α) (es : List (List α)) :
    (es.flatMap (· ++ [nul])).length = extent es := by
  induction es with
  | nil => rfl
  | cons e es ih =>
    rw [List.flatMap_cons, List.length_append, List.length_append, List.length_singleton, ih,
      extent_cons]

/-- A block within the bound is seen to its end. -/
theorem seen_of_fits {limit i : Nat} {es : List (List α)} (h : i + extent es ≤ limit) :
    seen limit i es = es := by
  induction es generalizing i with
  | nil => rfl
  | cons e es ih =>
    rw [extent_cons] at h
    rw [seen, if_pos (by omega), List.take_of_length_le (by omega), ih (by omega)]

/-- What is seen of a longer block reaches the bound. -/
theorem le_extent_seen {limit i : Nat} {es : List (List α)} (h : limit ≤ i + extent es) :
    limit ≤ i + extent (seen limit i es) := by
  induction es generalizing i with
  | nil => exact h
  | cons e es ih =>
    rcases Nat.lt_or_ge i limit with hi | hi
    · rw [extent_cons] at h
      rw [seen, if_pos hi, extent_cons, List.length_take]
      have hrest := ih (i := i + (e.length + 1)) (by omega)
      omega
    · rw [seen_of_ge hi]
      exact Nat.le_trans hi (Nat.le_add_right _ _)

/-- What is seen of an entry is a beginning of it that is not empty. -/
theorem mem_of_mem_seen {limit i : Nat} {es : List (List α)} {e : List α}
    (h : e ∈ seen limit i es) : ∃ whole ∈ es, ∃ n, e = whole.take (n + 1) := by
  induction es generalizing i with
  | nil => exact absurd h List.not_mem_nil
  | cons a es ih =>
    rw [seen] at h
    split at h
    · rename_i hi
      rcases List.mem_cons.mp h with rfl | h
      · refine ⟨a, List.mem_cons_self, limit - i - 1, ?_⟩
        rw [Nat.sub_add_cancel (by omega)]
      · obtain ⟨whole, hwhole, hn⟩ := ih h
        exact ⟨whole, List.mem_cons_of_mem _ hwhole, hn⟩
    · exact absurd h List.not_mem_nil

/-- What a walk sees of a block could itself be a block. -/
theorem seen_wf {nul : α} {limit i : Nat} {es : List (List α)}
    (hwf : ∀ e ∈ es, e ≠ [] ∧ nul ∉ e) : ∀ e ∈ seen limit i es, e ≠ [] ∧ nul ∉ e := by
  intro e he
  obtain ⟨whole, hwhole, n, rfl⟩ := mem_of_mem_seen he
  obtain ⟨hne, hnul⟩ := hwf whole hwhole
  refine ⟨?_, fun h => hnul (List.mem_of_mem_take h)⟩
  obtain ⟨c, t, rfl⟩ := List.exists_cons_of_ne_nil hne
  exact List.cons_ne_nil _ _

end Seen

/-! ## 3. Keys -/

section Keys

variable {α : Type*} [DecidableEq α]

/-- The key of an entry: what stands before its first separator that is not the first
character. -/
def keyBefore (sep : α) (entry : List α) : Option (List α) :=
  match entry with
  | [] => none
  | c :: t =>
    if (t.takeWhile (· != sep)).length < t.length then some (c :: t.takeWhile (· != sep))
    else none

theorem keyBefore_cons (sep c : α) (t : List α) : keyBefore sep (c :: t) =
    if (t.takeWhile (· != sep)).length < t.length then some (c :: t.takeWhile (· != sep))
    else none := rfl

theorem keyBefore_ne_nil {sep : α} {e key : List α} (h : keyBefore sep e = some key) :
    key ≠ [] := by
  cases e with
  | nil => exact absurd h (by simp [keyBefore])
  | cons c t =>
    rw [keyBefore_cons] at h
    split at h
    · exact Option.some.inj h ▸ List.cons_ne_nil _ _
    · exact absurd h (by simp)

theorem keyBefore_length_lt {sep : α} {e key : List α} (h : keyBefore sep e = some key) :
    key.length < e.length := by
  cases e with
  | nil => exact absurd h (by simp [keyBefore])
  | cons c t =>
    rw [keyBefore_cons] at h
    split at h
    · rename_i hlt
      obtain rfl := Option.some.inj h
      exact Nat.succ_lt_succ hlt
    · exact absurd h (by simp)

/-- **The key of a cut entry**: the entry's, if its separator is before the cut. -/
theorem keyBefore_take (sep : α) (e : List α) (m : Nat) :
    keyBefore sep (e.take m) = (keyBefore sep e).filter fun key => decide (key.length < m) := by
  cases e with
  | nil => rw [List.take_nil]; rfl
  | cons c t =>
    cases m with
    | zero =>
      rw [List.take_zero, keyBefore_cons]
      split <;> simp [keyBefore]
    | succ m =>
      rw [List.take_succ_cons, keyBefore_cons, keyBefore_cons, ← List.take_takeWhile]
      have hle : (t.takeWhile (· != sep)).length ≤ t.length := (List.takeWhile_prefix _).length_le
      rw [List.length_take, List.length_take]
      by_cases hm : (t.takeWhile (· != sep)).length < m
      · rw [List.take_of_length_le (Nat.le_of_lt hm)]
        by_cases heq : (t.takeWhile (· != sep)).length < t.length
        · rw [if_pos heq, if_pos (by omega)]
          simp [Option.filter, hm]
        · rw [if_neg heq, if_neg (by omega)]
          rfl
      · rw [if_neg (by omega)]
        split
        · simp [Option.filter, hm]
        · rfl

end Keys

/-! ## 4. Blocks within a wider alphabet -/

section Map

variable {α β : Type*} [DecidableEq α] [DecidableEq β] {f : α → β}

theorem takeWhile_map_ne (hf : Function.Injective f) (l : List α) (x : α) :
    (l.map f).takeWhile (· != f x) = (l.takeWhile (· != x)).map f := by
  rw [List.takeWhile_map]
  congr 2
  funext a
  rw [Function.comp_apply, Bool.eq_iff_iff, bne_iff_ne, bne_iff_ne]
  exact hf.ne_iff

theorem walk_map (hf : Function.Injective f) (nul : α) (limit fuel i : Nat) (mem : List α) :
    walk (f nul) limit fuel i (mem.map f) = (walk nul limit fuel i mem).map (List.map f) := by
  induction fuel generalizing i mem with
  | zero => rfl
  | succ fuel ih =>
    rw [walk.eq_def, walk.eq_def]
    dsimp only
    split
    · cases mem with
      | nil => rfl
      | cons a t =>
        simp only [List.map_cons, hf.eq_iff]
        split
        · rfl
        · rw [← List.map_cons, ← List.map_take, takeWhile_map_ne hf, List.length_map,
            ← List.map_drop, ih, List.map_cons]
    · rfl

theorem keyBefore_map (hf : Function.Injective f) (sep : α) (e : List α) :
    keyBefore (f sep) (e.map f) = (keyBefore sep e).map (List.map f) := by
  cases e with
  | nil => rfl
  | cons a t =>
    rw [List.map_cons, keyBefore_cons, keyBefore_cons, takeWhile_map_ne hf, List.length_map,
      List.length_map]
    split <;> rfl

theorem blockEntries_map (hf : Function.Injective f) (nul : α) (limit : Nat) (mem : List α) :
    blockEntries (f nul) limit (mem.map f) = (blockEntries nul limit mem).map (List.map f) :=
  walk_map hf nul limit limit 0 mem

theorem extent_map {α β : Type*} (f : α → β) (es : List (List α)) :
    extent (es.map (List.map f)) = extent es := by
  rw [extent, extent, List.map_map]
  congr 1
  exact List.map_congr_left fun e _ => by rw [Function.comp_apply, List.length_map]

theorem flatMap_terminated_map {α β : Type*} (f : α → β) (nul : α) (es : List (List α)) :
    (es.map (List.map f)).flatMap (· ++ [f nul]) = (es.flatMap (· ++ [nul])).map f := by
  rw [List.flatMap_map, List.map_flatMap]
  refine congrArg (List.flatMap · es) (funext fun e => ?_)
  rw [List.map_append, List.map_singleton]

end Map

end NulBlocks
