/-
# Open addressing with linear probing and backward-shift deletion

A table of `cap` slots, each empty or holding an entry.  An entry is looked for from its HOME slot
onwards, cyclically, until it is met, an empty slot is met, or every slot has been looked at.  The
module develops the discipline on its own: the cyclic distance and the probe loop, the invariant
that makes a probe find what the table holds, insertion, and deletion by backward shift, where the
hole left by the removed entry wanders along the run until it can be left where it is.

Nothing here fixes the capacity, the keys, the values or the hash: the results hold for every
`home`, so for every pattern of collisions and for runs that wrap around the end of the array.
-/
import Mathlib.Data.Fintype.Basic
import Mathlib.Data.Fintype.BigOperators
import Mathlib.Algebra.BigOperators.Fin
import Mathlib.Algebra.Order.BigOperators.Group.Finset

namespace IoMon.OpenAddressing

variable {cap : Nat} {α κ ν : Type}

/-! ## 1. Cyclic distance -/

/-- The slot after `i`, wrapping around at the end of the array. -/
def next (i : Fin cap) : Fin cap := ⟨(i.val + 1) % cap, Nat.mod_lt _ (by have := i.isLt; omega)⟩

/-- How many steps of `next` lead from `h` to `i`. -/
def dist (h i : Fin cap) : Nat :=
  if h.val ≤ i.val then i.val - h.val else i.val + cap - h.val

theorem next_val (i : Fin cap) :
    (next i).val = if i.val + 1 = cap then 0 else i.val + 1 := by
  have hi := i.isLt
  unfold next
  split
  · next h => simp [h]
  · next h => exact Nat.mod_eq_of_lt (by omega)

theorem dist_lt (h i : Fin cap) : dist h i < cap := by
  have hh := h.isLt
  have hi := i.isLt
  unfold dist
  split <;> omega

@[simp] theorem dist_self (h : Fin cap) : dist h h = 0 := by
  simp [dist]

theorem dist_eq_zero {h i : Fin cap} : dist h i = 0 ↔ i = h := by
  have hh := h.isLt
  have hi := i.isLt
  rw [Fin.ext_iff]
  unfold dist
  split <;> omega

/-- Distances from one slot tell slots apart. -/
theorem dist_inj {h i j : Fin cap} (e : dist h i = dist h j) : i = j := by
  have hh := h.isLt
  have hi := i.isLt
  have hj := j.isLt
  rw [Fin.ext_iff]
  unfold dist at e
  split at e <;> split at e <;> omega

/-- A step of `next` is one further away, unless it closes the circle. -/
theorem dist_next {h i : Fin cap} (hlt : dist h i + 1 < cap) : dist h (next i) = dist h i + 1 := by
  have hh := h.isLt
  have hi := i.isLt
  have hn := next_val i
  unfold dist at hlt ⊢
  split at hn <;> split at hlt <;> split <;> omega

theorem next_eq_of_dist {h i : Fin cap} (hlast : dist h i + 1 = cap) : next i = h := by
  have hh := h.isLt
  have hi := i.isLt
  have hn := next_val i
  rw [Fin.ext_iff]
  unfold dist at hlast
  split at hn <;> split at hlast <;> omega

/-- **Cutting a probe at a slot on its way.**  Up to `i` the distances from `h` add up. -/
theorem dist_add {h x i : Fin cap} (hx : dist h x ≤ dist h i) :
    dist h i = dist h x + dist x i := by
  have hh := h.isLt
  have hi := i.isLt
  have hxx := x.isLt
  unfold dist at hx ⊢
  split_ifs at hx ⊢ <;> omega

/-! ## 2. The probe loop -/

/-- The table: an array of slots, `none` for an unused one. -/
abbrev Slots (cap : Nat) (α : Type) := Fin cap → Option α

/-- **The probe.**  `while used and not hit and scanned < cap: idx = idx + 1; inc scanned`, with
`left = cap - scanned`.  It returns the index it stopped at and the looks it had left; none left
means that it went round. -/
def probe (hit : α → Bool) (slots : Slots cap α) : Nat → Fin cap → Fin cap × Nat
  | 0, idx => (idx, 0)
  | left + 1, idx =>
      match slots idx with
      | none => (idx, left + 1)
      | some e => if hit e then (idx, left + 1) else probe hit slots left (next idx)

/-- The probe goes past the slot `x`: it is used, and not by a hit. -/
def Passes (hit : α → Bool) (slots : Slots cap α) (x : Fin cap) : Prop :=
  ∃ e, slots x = some e ∧ hit e = false

theorem probe_succ_of_passes {hit : α → Bool} {slots : Slots cap α} {idx : Fin cap} (left : Nat)
    (hp : Passes hit slots idx) :
    probe hit slots (left + 1) idx = probe hit slots left (next idx) := by
  obtain ⟨e, he, hh⟩ := hp
  simp [probe, he, hh]

theorem probe_of_not_passes {hit : α → Bool} {slots : Slots cap α} {idx : Fin cap} (left : Nat)
    (hp : ¬ Passes hit slots idx) : probe hit slots left idx = (idx, left) := by
  cases left with
  | zero => rfl
  | succ left =>
      cases hs : slots idx with
      | none => simp [probe, hs]
      | some e =>
          have hh : hit e = true := by
            by_contra hne
            exact hp ⟨e, hs, by simpa using hne⟩
          simp [probe, hs, hh]

/-- **Where the probe stops.**  If the probe passes every slot before `i` and does not pass `i`,
it stops at `i`. -/
theorem probe_stops {hit : α → Bool} {slots : Slots cap α} {i : Fin cap}
    (hstop : ¬ Passes hit slots i) (d : Nat) :
    ∀ (left : Nat) (idx : Fin cap), dist idx i = d → d ≤ left →
      (∀ x, dist idx x < d → Passes hit slots x) → probe hit slots left idx = (i, left - d) := by
  induction d with
  | zero =>
      intro left idx hd _ _
      obtain rfl := dist_eq_zero.mp hd
      simpa using probe_of_not_passes left hstop
  | succ d ih =>
      intro left idx hd hle hpass
      obtain ⟨left, rfl⟩ : ∃ l, left = l + 1 := ⟨left - 1, by omega⟩
      have hlt := dist_lt idx i
      have hnext : dist idx (next idx) = 1 := by
        have := @dist_next cap idx idx (by rw [dist_self]; omega)
        simpa using this
      have hsplit := @dist_add cap idx (next idx) i (by omega)
      rw [probe_succ_of_passes left (hpass idx (by simp))]
      rw [ih left (next idx) (by omega) (by omega) ?_]
      · simp
      · intro x hx
        -- a slot before `i` seen from `next idx` is before `i` seen from `idx`, or is `idx` itself
        rcases Nat.lt_or_ge (dist idx x) 1 with h0 | h1
        · exact hpass x (by omega)
        · have := @dist_add cap idx (next idx) x (by omega)
          exact hpass x (by omega)

/-- **The probe that goes round.**  If every slot is passed, the probe is back where it began with
no look left. -/
theorem probe_round {hit : α → Bool} {slots : Slots cap α} (hall : ∀ x, Passes hit slots x)
    (h : Fin cap) :
    ∀ (left : Nat) (idx : Fin cap), (left = 0 ∧ idx = h ∨ dist h idx + left = cap) →
      probe hit slots left idx = (h, 0) := by
  intro left
  induction left with
  | zero =>
      intro idx hidx
      rcases hidx with ⟨-, rfl⟩ | hc
      · rfl
      · have := dist_lt h idx
        omega
  | succ left ih =>
      intro idx hidx
      have hc : dist h idx + (left + 1) = cap := by
        rcases hidx with ⟨h0, -⟩ | hc
        · omega
        · exact hc
      rw [probe_succ_of_passes left (hall idx)]
      apply ih
      rcases Nat.lt_or_ge (dist h idx + 1) cap with hlt | hge
      · right
        rw [dist_next hlt]
        omega
      · left
        exact ⟨by omega, next_eq_of_dist (by omega)⟩

/-- Among the slots that are not passed, one is met first. -/
theorem exists_first {P : Fin cap → Prop} (h : Fin cap) (hex : ∃ x, P x) :
    ∃ i, P i ∧ ∀ x, dist h x < dist h i → ¬ P x := by
  classical
  obtain ⟨x, hx⟩ := hex
  have hd : ∃ d, ∃ y, P y ∧ dist h y = d := ⟨dist h x, x, hx, rfl⟩
  obtain ⟨i, hi, hdi⟩ := Nat.find_spec hd
  refine ⟨i, hi, fun y hy hP => ?_⟩
  exact Nat.find_min hd (m := dist h y) (by omega) ⟨y, hP, rfl⟩

/-- **What a whole probe returns.**  Either it went round and every slot is passed, or it stopped
at the first slot that is not. -/
theorem probe_cases (hit : α → Bool) (slots : Slots cap α) (h : Fin cap) :
    ((∀ x, Passes hit slots x) ∧ probe hit slots cap h = (h, 0)) ∨
    (∃ i, ¬ Passes hit slots i ∧ (∀ x, dist h x < dist h i → Passes hit slots x) ∧
      probe hit slots cap h = (i, cap - dist h i)) := by
  by_cases hall : ∀ x, Passes hit slots x
  · exact .inl ⟨hall, probe_round hall h cap h (.inr (by simp))⟩
  · right
    obtain ⟨i, hi, hfirst⟩ := exists_first (P := fun x => ¬ Passes hit slots x) h
      (by simpa using hall)
    have hbefore : ∀ x, dist h x < dist h i → Passes hit slots x :=
      fun x hx => not_not.mp (hfirst x hx)
    exact ⟨i, hi, hbefore,
      probe_stops hi (dist h i) cap h rfl (dist_lt h i).le hbefore⟩

/-! ## 3. What makes a probe find what the table holds -/

section Keyed

variable (home : κ → Fin cap)

/-- The test of an entry against a key. -/
def isKey [DecidableEq κ] (k : κ) (e : κ × ν) : Bool := decide (e.1 = k)

/-- The table holds `v` under `k`. -/
def Holds (slots : Slots cap (κ × ν)) (k : κ) (v : ν) : Prop := ∃ i, slots i = some (k, v)

/-- **The representation invariant.**  No key has two slots, and no slot between an entry's home
and the entry is empty. -/
structure WellPlaced (slots : Slots cap (κ × ν)) : Prop where
  unique : ∀ {i j k v w}, slots i = some (k, v) → slots j = some (k, w) → i = j
  reached : ∀ {i k v}, slots i = some (k, v) →
    ∀ x, dist (home k) x < dist (home k) i → slots x ≠ none

/-- The table without entries is well placed. -/
theorem WellPlaced.empty : WellPlaced home (fun _ => none : Slots cap (κ × ν)) where
  unique h := by cases h
  reached h := by cases h

theorem passes_isKey_iff [DecidableEq κ] {slots : Slots cap (κ × ν)} {k : κ} {x : Fin cap} :
    Passes (isKey k) slots x ↔ ∃ k' v, slots x = some (k', v) ∧ k' ≠ k := by
  constructor
  · rintro ⟨⟨k', v⟩, he, hh⟩
    exact ⟨k', v, he, by simpa [isKey] using hh⟩
  · rintro ⟨k', v, he, hne⟩
    exact ⟨(k', v), he, by simpa [isKey] using hne⟩

variable {home}

/-- **A held key is found**, in its own slot. -/
theorem WellPlaced.probe_held [DecidableEq κ] {slots : Slots cap (κ × ν)}
    (hw : WellPlaced home slots) {k : κ} {v : ν} {i : Fin cap} (hi : slots i = some (k, v)) :
    probe (isKey k) slots cap (home k) = (i, cap - dist (home k) i) := by
  refine probe_stops ?_ (dist (home k) i) cap (home k) rfl (dist_lt _ _).le ?_
  · rintro ⟨e, he, hh⟩
    rw [hi, Option.some_inj] at he
    subst he
    simp [isKey] at hh
  · intro x hx
    obtain ⟨⟨k', w⟩, he⟩ := Option.ne_none_iff_exists'.mp (hw.reached hi x hx)
    refine passes_isKey_iff.mpr ⟨k', w, he, ?_⟩
    rintro rfl
    obtain rfl := hw.unique he hi
    exact absurd hx (lt_irrefl _)

/-- **An absent key is not found**: the probe goes round a table without an empty slot, or stops at
the first empty one. -/
theorem probe_absent [DecidableEq κ] (home : κ → Fin cap) {slots : Slots cap (κ × ν)} {k : κ}
    (hab : ∀ v, ¬ Holds slots k v) :
    ((∀ x, slots x ≠ none) ∧ probe (isKey k) slots cap (home k) = (home k, 0)) ∨
    (∃ i, slots i = none ∧ (∀ x, dist (home k) x < dist (home k) i → slots x ≠ none) ∧
      probe (isKey k) slots cap (home k) = (i, cap - dist (home k) i)) := by
  have hpass : ∀ x, Passes (isKey k) slots x ↔ slots x ≠ none := by
    intro x
    rw [passes_isKey_iff]
    constructor
    · rintro ⟨k', v, he, -⟩
      simp [he]
    · intro hne
      obtain ⟨⟨k', v⟩, he⟩ := Option.ne_none_iff_exists'.mp hne
      exact ⟨k', v, he, fun hk => hab v ⟨x, hk ▸ he⟩⟩
  have hcases := probe_cases (isKey k) slots (home k)
  simp only [hpass, not_not] at hcases
  exact hcases

/-! ## 4. Writing one slot -/

/-- **Overwriting the slot of a key, or filling the empty slot its probe stops at, keeps the
table well placed.** -/
theorem WellPlaced.put {slots : Slots cap (κ × ν)} (hw : WellPlaced home slots) {k : κ} {v : ν}
    {i : Fin cap} (hslot : (∃ w, slots i = some (k, w)) ∨
      (slots i = none ∧ ∀ w, ¬ Holds slots k w))
    (hbefore : ∀ x, dist (home k) x < dist (home k) i → slots x ≠ none) :
    WellPlaced home (Function.update slots i (some (k, v))) := by
  have honly : ∀ {j w}, slots j = some (k, w) → j = i := by
    intro j w hj
    rcases hslot with ⟨w', hi⟩ | ⟨-, hab⟩
    · exact hw.unique hj hi
    · exact absurd ⟨j, hj⟩ (hab w)
  have hfull : ∀ x, slots x ≠ none → Function.update slots i (some (k, v)) x ≠ none := by
    intro x hx
    by_cases hxi : x = i
    · simp [hxi]
    · simpa [Function.update_of_ne hxi] using hx
  constructor
  · intro j j' k' w w' hj hj'
    by_cases hji : j = i <;> by_cases hji' : j' = i
    · exact hji.trans hji'.symm
    · subst hji
      simp only [Function.update_self, Option.some.injEq, Prod.mk.injEq] at hj
      rw [Function.update_of_ne hji', ← hj.1] at hj'
      exact (honly hj').symm
    · subst hji'
      simp only [Function.update_self, Option.some.injEq, Prod.mk.injEq] at hj'
      rw [Function.update_of_ne hji, ← hj'.1] at hj
      exact honly hj
    · rw [Function.update_of_ne hji] at hj
      rw [Function.update_of_ne hji'] at hj'
      exact hw.unique hj hj'
  · intro j k' w hj x hx
    apply hfull
    by_cases hji : j = i
    · subst hji
      simp only [Function.update_self, Option.some.injEq, Prod.mk.injEq] at hj
      rw [← hj.1] at hx
      exact hbefore x hx
    · rw [Function.update_of_ne hji] at hj
      exact hw.reached hj x hx

/-- What the table holds after a slot was written for `k`. -/
theorem holds_put [DecidableEq κ] {slots : Slots cap (κ × ν)} {k : κ} {v : ν} {i : Fin cap}
    (hslot : (∃ w, slots i = some (k, w)) ∨ slots i = none)
    (honly : ∀ {j w}, slots j = some (k, w) → j = i) (k' : κ) (w : ν) :
    Holds (Function.update slots i (some (k, v))) k' w ↔
      if k' = k then w = v else Holds slots k' w := by
  constructor
  · rintro ⟨j, hj⟩
    by_cases hji : j = i
    · subst hji
      simp only [Function.update_self, Option.some.injEq, Prod.mk.injEq] at hj
      simp [hj.1, hj.2]
    · rw [Function.update_of_ne hji] at hj
      have hne : k' ≠ k := by
        rintro rfl
        exact hji (honly hj)
      simpa [hne] using ⟨j, hj⟩
  · split
    · next hk =>
        rintro rfl
        exact ⟨i, by simp [hk]⟩
    · next hk =>
        rintro ⟨j, hj⟩
        have hji : j ≠ i := by
          rintro rfl
          rcases hslot with ⟨u, hu⟩ | hn
          · rw [hj, Option.some_inj, Prod.mk.injEq] at hu
            exact hk hu.1
          · simp [hn] at hj
        exact ⟨j, by rw [Function.update_of_ne hji, hj]⟩

end Keyed

/-! ## 5. Deletion by backward shift

Taking an entry out leaves a hole that a probe for another entry may have to cross.  The loop
walks on from the hole; an entry whose probe crosses the hole is moved into it and leaves the hole
where it was; the first empty slot ends the walk. -/

section BackShift

variable (home : κ → Fin cap)

/-- Is the hole on the way from `h` to `j`?  The comparison of the source, on indices: the entry
at `j` moves unless its home lies cyclically after the hole and not after `j`. -/
def canMove (hole j h : Fin cap) : Bool :=
  if hole.val ≤ j.val then !(decide (h.val > hole.val) && decide (h.val ≤ j.val))
  else !(decide (h.val > hole.val) || decide (h.val ≤ j.val))

theorem canMove_iff {hole j : Fin cap} (hne : hole ≠ j) (h : Fin cap) :
    canMove hole j h = true ↔ dist h hole < dist h j := by
  have hh := h.isLt
  have hj := j.isLt
  have hho := hole.isLt
  have hne' : hole.val ≠ j.val := fun e => hne (Fin.ext e)
  unfold canMove dist
  split <;> simp <;> split_ifs <;> omega

/-- **The back-shift loop**, `none` when the fuel runs out.  `j` is the slot looked at last. -/
def backShift : Nat → Slots cap (κ × ν) → Fin cap → Fin cap → Option (Slots cap (κ × ν))
  | 0, _, _, _ => none
  | fuel + 1, slots, hole, j =>
      match slots (next j) with
      | none => some slots
      | some e =>
          if canMove hole (next j) (home e.1) then
            backShift fuel (Function.update (Function.update slots hole (some e)) (next j) none)
              (next j) (next j)
          else backShift fuel slots hole (next j)

/-- **The loop invariant.**  The table is well placed but for the hole, and no entry between the
hole and `j` has the hole on its way. -/
structure Wanders (slots : Slots cap (κ × ν)) (hole j : Fin cap) : Prop where
  empty : slots hole = none
  unique : ∀ {i i' k v w}, slots i = some (k, v) → slots i' = some (k, w) → i = i'
  reached : ∀ {i k v}, slots i = some (k, v) →
    ∀ x, dist (home k) x < dist (home k) i → slots x ≠ none ∨ x = hole
  examined : ∀ {i k v}, slots i = some (k, v) → dist hole i ≤ dist hole j →
    ¬ dist (home k) hole < dist (home k) i

/-- How far the entries stand from their homes, in all. -/
def displacement (slots : Slots cap (κ × ν)) : Nat :=
  ∑ i, match slots i with
    | none => 0
    | some e => dist (home e.1) i

variable {home}

/-- Taking an entry out of a well placed table starts the walk. -/
theorem WellPlaced.wanders {slots : Slots cap (κ × ν)} (hw : WellPlaced home slots)
    (hole : Fin cap) : Wanders home (Function.update slots hole none) hole hole := by
  have hback : ∀ {i e}, Function.update slots hole none i = some e →
      i ≠ hole ∧ slots i = some e := by
    intro i e hi
    by_cases hih : i = hole
    · simp [hih] at hi
    · exact ⟨hih, by rwa [Function.update_of_ne hih] at hi⟩
  constructor
  · simp
  · intro i i' k v w hi hi'
    exact hw.unique (hback hi).2 (hback hi').2
  · intro i k v hi x hx
    by_cases hxh : x = hole
    · exact .inr hxh
    · left
      rw [Function.update_of_ne hxh]
      exact hw.reached (hback hi).2 x hx
  · intro i k v hi hle
    have h0 : i = hole := dist_eq_zero.mp (by rw [dist_self] at hle; omega)
    exact absurd h0 (hback hi).1

/-- **The walk ends well.**  At an empty slot no entry has the hole on its way: one beyond the
empty slot would have that slot on its way too. -/
theorem Wanders.wellPlaced {slots : Slots cap (κ × ν)} {hole j : Fin cap}
    (hw : Wanders home slots hole j) (hend : slots (next j) = none) : WellPlaced home slots := by
  refine ⟨hw.unique, fun {i k v} hi x hx => ?_⟩
  rcases hw.reached hi x hx with hne | rfl
  · exact hne
  · exfalso
    have hnear : ¬ dist x i ≤ dist x j := fun hle => hw.examined hi hle hx
    have hli := dist_lt x i
    have hlj := dist_lt x j
    rcases Nat.lt_or_ge (dist x j + 1) cap with hlt | hge
    · have hnext := dist_next hlt
      have hij : i ≠ next j := by
        rintro rfl
        simp [hend] at hi
      have hne : dist x i ≠ dist x (next j) := fun e => hij (dist_inj e)
      have hsplit := dist_add hx.le
      have hon : dist (home k) (next j) < dist (home k) i := by
        by_contra hcon
        have hge' : dist (home k) x ≤ dist (home k) (next j) := by omega
        have := dist_add hge'
        omega
      rcases hw.reached hi (next j) hon with h1 | h1
      · exact h1 hend
      · rw [h1] at hnext
        simp at hnext
    · omega

/-- A step that leaves the entry where it is. -/
theorem Wanders.skip {slots : Slots cap (κ × ν)} {hole j : Fin cap} {e : κ × ν}
    (hw : Wanders home slots hole j) (he : slots (next j) = some e)
    (hstay : ¬ dist (home e.1) hole < dist (home e.1) (next j)) :
    Wanders home slots hole (next j) ∧ dist hole (next j) = dist hole j + 1 := by
  have hnext : dist hole (next j) = dist hole j + 1 := by
    apply dist_next
    by_contra hcon
    have hlj := dist_lt hole j
    rw [next_eq_of_dist (h := hole) (i := j) (by omega), hw.empty] at he
    cases he
  refine ⟨⟨hw.empty, hw.unique, hw.reached, fun {i k v} hi hle => ?_⟩, hnext⟩
  rcases Nat.lt_or_ge (dist hole j) (dist hole i) with hgt | hle'
  · obtain rfl : i = next j := dist_inj (h := hole) (by omega)
    rw [he, Option.some_inj] at hi
    subst hi
    exact hstay
  · exact hw.examined hi hle'

/-- The table after a step that moves the entry `e` from `j` into the hole. -/
theorem moved_some {slots : Slots cap (κ × ν)} {hole j i : Fin cap} {e e' : κ × ν} (hne : hole ≠ j)
    (hi : Function.update (Function.update slots hole (some e)) j none i = some e') :
    (i = hole ∧ e' = e) ∨ (i ≠ hole ∧ i ≠ j ∧ slots i = some e') := by
  by_cases hij : i = j
  · simp [hij] at hi
  · rw [Function.update_of_ne hij] at hi
    by_cases hih : i = hole
    · subst hih
      simp only [Function.update_self, Option.some.injEq] at hi
      exact .inl ⟨rfl, hi.symm⟩
    · rw [Function.update_of_ne hih] at hi
      exact .inr ⟨hih, hij, hi⟩

/-- A step that moves the entry into the hole. -/
theorem Wanders.move {slots : Slots cap (κ × ν)} {hole j : Fin cap} {e : κ × ν}
    (hw : Wanders home slots hole j) (he : slots (next j) = some e)
    (hmove : dist (home e.1) hole < dist (home e.1) (next j)) :
    Wanders home (Function.update (Function.update slots hole (some e)) (next j) none)
      (next j) (next j) := by
  have hne : hole ≠ next j := by
    rintro h
    rw [← h] at hmove
    exact lt_irrefl _ hmove
  have hfull : ∀ x, slots x ≠ none ∨ x = hole →
      Function.update (Function.update slots hole (some e)) (next j) none x ≠ none ∨
        x = next j := by
    intro x hx
    by_cases hxj : x = next j
    · exact .inr hxj
    · left
      rw [Function.update_of_ne hxj]
      by_cases hxh : x = hole
      · simp [hxh]
      · rw [Function.update_of_ne hxh]
        exact hx.resolve_right hxh
  constructor
  · simp
  · intro i i' k v w hi hi'
    rcases moved_some hne hi with ⟨rfl, h1⟩ | ⟨hih, hij, h1⟩ <;>
      rcases moved_some hne hi' with ⟨rfl, h2⟩ | ⟨hih', hij', h2⟩
    · rfl
    · rw [← h1] at he
      exact absurd (hw.unique h2 he) hij'
    · rw [← h2] at he
      exact absurd (hw.unique h1 he) hij
    · exact hw.unique h1 h2
  · intro i k v hi x hx
    apply hfull
    rcases moved_some hne hi with ⟨rfl, rfl⟩ | ⟨-, -, h1⟩
    · exact hw.reached he x (lt_trans hx hmove)
    · exact hw.reached h1 x hx
  · intro i k v hi hle
    have h0 : i = next j := dist_eq_zero.mp (by rw [dist_self] at hle; omega)
    simp [h0] at hi

/-- A move changes no key's value. -/
theorem holds_moved {slots : Slots cap (κ × ν)} {hole j : Fin cap} {e : κ × ν} (hne : hole ≠ j)
    (hempty : slots hole = none) (he : slots j = some e) (k : κ) (v : ν) :
    Holds (Function.update (Function.update slots hole (some e)) j none) k v ↔
      Holds slots k v := by
  constructor
  · rintro ⟨i, hi⟩
    rcases moved_some hne hi with ⟨-, h1⟩ | ⟨-, -, h1⟩
    · exact ⟨j, by rw [he, h1]⟩
    · exact ⟨i, h1⟩
  · rintro ⟨i, hi⟩
    by_cases hij : i = j
    · subst hij
      refine ⟨hole, ?_⟩
      rw [Function.update_of_ne hne, Function.update_self, ← he, hi]
    · have hih : i ≠ hole := by
        rintro rfl
        simp [hempty] at hi
      exact ⟨i, by rw [Function.update_of_ne hij, Function.update_of_ne hih, hi]⟩

/-- **A move brings an entry nearer to its home**, and touches no other. -/
theorem displacement_move {slots : Slots cap (κ × ν)} {hole j : Fin cap} {e : κ × ν}
    (hempty : slots hole = none) (he : slots j = some e)
    (hmove : dist (home e.1) hole < dist (home e.1) j) :
    displacement home (Function.update (Function.update slots hole (some e)) j none) <
      displacement home slots := by
  have hne : hole ≠ j := by
    rintro rfl
    exact lt_irrefl _ hmove
  unfold displacement
  rw [← Finset.add_sum_erase _ _ (Finset.mem_univ j),
    ← Finset.add_sum_erase _ _ (Finset.mem_erase.mpr ⟨hne, Finset.mem_univ hole⟩),
    ← Finset.add_sum_erase (Finset.univ) _ (Finset.mem_univ j),
    ← Finset.add_sum_erase (Finset.univ.erase j) _
      (Finset.mem_erase.mpr ⟨hne, Finset.mem_univ hole⟩)]
  have hrest : ∀ i ∈ (Finset.univ.erase j).erase hole,
      Function.update (Function.update slots hole (some e)) j none i = slots i := by
    intro i hi
    simp only [Finset.mem_erase, Finset.mem_univ, and_true] at hi
    rw [Function.update_of_ne hi.2, Function.update_of_ne hi.1]
  rw [Finset.sum_congr rfl fun i hi => by rw [hrest i hi]]
  simp only [Function.update_self, Function.update_of_ne hne, he, hempty]
  omega

/-- The displacement of a table is below the square of its capacity. -/
theorem displacement_le (home : κ → Fin cap) (slots : Slots cap (κ × ν)) :
    displacement home slots ≤ cap * cap := by
  have hle : displacement home slots ≤ ∑ _i : Fin cap, cap := by
    apply Finset.sum_le_sum
    intro i _
    split
    · exact Nat.zero_le _
    · exact (dist_lt _ _).le
  simpa using hle

/-- **The loop ends**, with a well placed table that holds what the table with the hole held.  Each
step that moves nothing comes nearer to the end of the circle, and each move lowers the
displacement. -/
theorem backShift_ends (fuel : Nat) :
    ∀ (slots : Slots cap (κ × ν)) (hole j : Fin cap), Wanders home slots hole j →
      displacement home slots * cap + (cap - dist hole j) ≤ fuel →
      ∃ slots', backShift home fuel slots hole j = some slots' ∧ WellPlaced home slots' ∧
        ∀ k v, Holds slots' k v ↔ Holds slots k v := by
  induction fuel with
  | zero =>
      intro slots hole j _ hfuel
      have := dist_lt hole j
      omega
  | succ fuel ih =>
      intro slots hole j hw hfuel
      cases he : slots (next j) with
      | none =>
          exact ⟨slots, by simp [backShift, he], hw.wellPlaced he, fun _ _ => Iff.rfl⟩
      | some e =>
          have hne : hole ≠ next j := by
            rintro h
            rw [← h, hw.empty] at he
            cases he
          by_cases hmove : dist (home e.1) hole < dist (home e.1) (next j)
          · have hstep := (canMove_iff hne (home e.1)).mpr hmove
            have hless := displacement_move hw.empty he hmove
            have hbound := Nat.mul_le_mul_right cap hless
            rw [Nat.succ_mul] at hbound
            have hj := dist_lt hole j
            obtain ⟨slots', hrun, hplaced, hholds⟩ := ih _ (next j) (next j) (hw.move he hmove)
              (by rw [dist_self]; omega)
            refine ⟨slots', by simp [backShift, he, hstep, hrun], hplaced, fun k v => ?_⟩
            rw [hholds, holds_moved hne hw.empty he]
          · have hstep : canMove hole (next j) (home e.1) = false := by
              rw [Bool.eq_false_iff]
              exact fun h => hmove ((canMove_iff hne (home e.1)).mp h)
            obtain ⟨hskip, hd⟩ := hw.skip he hmove
            have hj := dist_lt hole (next j)
            obtain ⟨slots', hrun, hplaced, hholds⟩ := ih slots hole (next j) hskip (by omega)
            exact ⟨slots', by simp [backShift, he, hstep, hrun], hplaced, hholds⟩

/-- Iterations that are always enough for the back-shift loop of a table of `cap` slots. -/
def backShiftBound (cap : Nat) : Nat := cap * cap * cap + cap

/-- **Deletion.**  From a well placed table with `k` in the slot `i`, the loop ends within
`backShiftBound`; the table is well placed and holds what it held, `k` apart. -/
theorem WellPlaced.backShift_spec {slots : Slots cap (κ × ν)} (hw : WellPlaced home slots)
    {k : κ} {v : ν} {i : Fin cap} (hi : slots i = some (k, v)) {fuel : Nat}
    (hfuel : backShiftBound cap ≤ fuel) :
    ∃ slots', backShift home fuel (Function.update slots i none) i i = some slots' ∧
      WellPlaced home slots' ∧ ∀ k' w, Holds slots' k' w ↔ (k' ≠ k ∧ Holds slots k' w) := by
  have hle := Nat.mul_le_mul_right cap
    (displacement_le home (Function.update slots i none))
  unfold backShiftBound at hfuel
  obtain ⟨slots', hrun, hplaced, hholds⟩ :=
    backShift_ends fuel _ i i (hw.wanders i) (by rw [dist_self]; omega)
  refine ⟨slots', hrun, hplaced, fun k' w => ?_⟩
  rw [hholds]
  constructor
  · rintro ⟨j, hj⟩
    have hji : j ≠ i := by
      rintro rfl
      simp at hj
    rw [Function.update_of_ne hji] at hj
    refine ⟨?_, j, hj⟩
    rintro rfl
    exact hji (hw.unique hj hi)
  · rintro ⟨hne, j, hj⟩
    have hji : j ≠ i := by
      rintro rfl
      rw [hi, Option.some_inj, Prod.mk.injEq] at hj
      exact hne hj.1.symm
    exact ⟨j, by rw [Function.update_of_ne hji, hj]⟩

end BackShift

end IoMon.OpenAddressing
