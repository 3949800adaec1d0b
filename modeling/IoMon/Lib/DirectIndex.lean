/-
# Tables indexed directly by small integers

A table of `n` cells that is asked about any integer: an index outside `0 .. n-1` reads as the
default and is not written.  Bit sets and maps over descriptors, slots or handles are of this kind.

Everything a caller needs is one equation for each operation, read through `get`:

  * `get_set` -- a write changes the cell it names, when there is one;
  * `get_foldl_set` -- so does a loop that writes one value at the indices that pass a test;
  * `set_get_self` -- writing what is there changes nothing.
-/
import Mathlib.Logic.Function.Basic
import Mathlib.Data.List.Basic

namespace IoMon.DirectIndex

/-- A table of `n` cells. -/
structure Table (n : Nat) (α : Type) where
  cell : Fin n → α

/-- The integers that name a cell. -/
def InRange (n : Nat) (i : Int) : Prop := 0 ≤ i ∧ i < n

instance (n : Nat) (i : Int) : Decidable (InRange n i) :=
  inferInstanceAs (Decidable (0 ≤ i ∧ i < n))

/-- The cell an integer in range names. -/
def InRange.index {n : Nat} {i : Int} (h : InRange n i) : Fin n :=
  ⟨i.toNat, by have := h.1; have := h.2; omega⟩

theorem InRange.index_inj {n : Nat} {i j : Int} (hi : InRange n i) (hj : InRange n j) :
    hi.index = hj.index ↔ i = j := by
  have h₁ := hi.1
  have h₂ := hj.1
  simp only [index, Fin.mk.injEq]
  omega

namespace Table

variable {n : Nat} {α : Type} [Inhabited α]

/-- The table before anything was written. -/
def empty : Table n α := ⟨fun _ => default⟩

def get (t : Table n α) (i : Int) : α := if h : InRange n i then t.cell h.index else default

def set (t : Table n α) (i : Int) (a : α) : Table n α :=
  if h : InRange n i then ⟨Function.update t.cell h.index a⟩ else t

@[simp] theorem get_empty (i : Int) : (empty : Table n α).get i = default := by
  rw [get]
  split <;> rfl

theorem get_of_not_inRange (t : Table n α) {i : Int} (h : ¬ InRange n i) : t.get i = default :=
  dif_neg h

omit [Inhabited α] in
theorem set_of_not_inRange (t : Table n α) {i : Int} (h : ¬ InRange n i) (a : α) : t.set i a = t :=
  dif_neg h

/-- **A write changes the cell it names.** -/
theorem get_set (t : Table n α) (i j : Int) (a : α) :
    (t.set i a).get j = if InRange n i ∧ j = i then a else t.get j := by
  by_cases hi : InRange n i
  · by_cases hji : j = i
    · subst hji
      rw [if_pos ⟨hi, rfl⟩, get, dif_pos hi, set, dif_pos hi]
      exact Function.update_self hi.index a t.cell
    · rw [if_neg (fun h => hji h.2), get, get, set, dif_pos hi]
      by_cases hj : InRange n j
      · rw [dif_pos hj, dif_pos hj]
        exact Function.update_of_ne (fun h => hji ((hj.index_inj hi).mp h)) a t.cell
      · rw [dif_neg hj, dif_neg hj]
  · rw [set_of_not_inRange t hi, if_neg (fun h => hi h.1)]

theorem get_set_of_ne (t : Table n α) {i j : Int} (h : j ≠ i) (a : α) :
    (t.set i a).get j = t.get j := by
  rw [get_set, if_neg (fun h' => h h'.2)]

theorem get_set_default (t : Table n α) (i : Int) : (t.set i default).get i = default := by
  rw [get_set]
  by_cases h : InRange n i
  · rw [if_pos ⟨h, rfl⟩]
  · rw [if_neg (fun h' => h h'.1), t.get_of_not_inRange h]

/-- **Writing what is there changes nothing.** -/
theorem set_get_self (t : Table n α) (i : Int) : t.set i (t.get i) = t := by
  by_cases h : InRange n i
  · rw [set, dif_pos h, get, dif_pos h, Function.update_eq_self]
  · exact t.set_of_not_inRange h _

/-- **A loop that writes one value.**  `p` is the test the loop makes before it writes. -/
theorem get_foldl_set (p : Int → Bool) (a : α) (j : Int) :
    ∀ (l : List Int) (t : Table n α),
      (l.foldl (fun t i => if p i then t.set i a else t) t).get j =
        if InRange n j ∧ j ∈ l ∧ p j = true then a else t.get j
  | [], t => by simp
  | i :: l, t => by
    rw [List.foldl_cons, get_foldl_set p a j l]
    by_cases hlater : InRange n j ∧ j ∈ l ∧ p j = true
    · rw [if_pos hlater, if_pos ⟨hlater.1, List.mem_cons_of_mem i hlater.2.1, hlater.2.2⟩]
    · rw [if_neg hlater]
      by_cases hji : j = i
      · subst hji
        by_cases hp : p j = true
        · rw [if_pos hp, get_set]
          by_cases hr : InRange n j
          · rw [if_pos ⟨hr, rfl⟩, if_pos ⟨hr, List.mem_cons_self, hp⟩]
          · rw [if_neg (fun h => hr h.1), if_neg (fun h => hr h.1)]
        · rw [if_neg hp, if_neg (fun h => hp h.2.2)]
      · have hmem : ¬ (InRange n j ∧ j ∈ i :: l ∧ p j = true) := by
          rintro ⟨hr, hm, hp⟩
          rcases List.mem_cons.mp hm with h | h
          · exact hji h
          · exact hlater ⟨hr, h, hp⟩
        rw [if_neg hmem]
        by_cases hp : p i = true
        · rw [if_pos hp, get_set_of_ne t hji]
        · rw [if_neg hp]

end Table

end IoMon.DirectIndex
