/-
# A bounded table whose entries are claimed and given back

The populated prefix of the table is a list of entries, each free or held by an owner.  An owner
claims the first free entry, or one more at the end while the table has room; an owner that leaves
frees its entry, so the prefix never shrinks.
-/
import Mathlib.Data.Finset.Card
import Mathlib.Data.List.Basic

namespace SlotTable

variable {ι : Type*}

/-- The entry that a claim takes, and the table with it taken. -/
def claim (max : Nat) (a : ι) (t : List (Option ι)) : Option (Nat × List (Option ι)) :=
  match t.findIdx? Option.isNone with
  | some i => some (i, t.set i (some a))
  | none => if t.length < max then some (t.length, t ++ [some a]) else none

/-- Entry `i` is freed when it is held by `a`. -/
def release [DecidableEq ι] (i : Nat) (a : ι) (t : List (Option ι)) : List (Option ι) :=
  if t[i]? = some (some a) then t.set i none else t

/-- Entry `i` is held by `a`. -/
def Holds (t : List (Option ι)) (i : Nat) (a : ι) : Prop := t[i]? = some (some a)

instance [DecidableEq ι] (t : List (Option ι)) (i : Nat) (a : ι) : Decidable (Holds t i a) :=
  inferInstanceAs (Decidable (_ = _))

@[simp] theorem not_holds_nil (i : Nat) (a : ι) : ¬ Holds [] i a := by
  simp [Holds]

/-! ## 1. A claim -/

/-- A claim takes a free entry of the prefix, or the one behind it. -/
theorem claim_cases {max : Nat} {a : ι} {t t' : List (Option ι)} {i : Nat}
    (h : claim max a t = some (i, t')) :
    (t[i]? = some none ∧ t' = t.set i (some a)) ∨
      (i = t.length ∧ t.length < max ∧ t' = t ++ [some a]) := by
  unfold claim at h
  split at h
  · rename_i j hfree
    obtain ⟨rfl, rfl⟩ := Prod.mk.injEq .. ▸ Option.some.injEq .. ▸ h
    obtain ⟨hlt, hnone, -⟩ := List.findIdx?_eq_some_iff_getElem.mp hfree
    exact .inl ⟨by rw [List.getElem?_eq_getElem hlt, Option.isNone_iff_eq_none.mp hnone], rfl⟩
  · split at h
    · rename_i hroom
      obtain ⟨rfl, rfl⟩ := Prod.mk.injEq .. ▸ Option.some.injEq .. ▸ h
      exact .inr ⟨rfl, hroom, rfl⟩
    · exact absurd h (by simp)

/-- **A claim adds one holder** and leaves the others where they are. -/
theorem holds_claim {max : Nat} {a : ι} {t t' : List (Option ι)} {i : Nat}
    (h : claim max a t = some (i, t')) (j : Nat) (b : ι) :
    Holds t' j b ↔ (j = i ∧ b = a) ∨ Holds t j b := by
  unfold Holds
  rcases claim_cases h with ⟨hfree, rfl⟩ | ⟨rfl, -, rfl⟩
  · by_cases hj : j = i
    · subst hj
      have hlt : j < t.length := (List.getElem?_eq_some_iff.mp hfree).1
      rw [List.getElem?_set_self hlt, hfree]
      simp [eq_comm]
    · rw [List.getElem?_set_ne (Ne.symm hj)]
      simp [hj]
  · rcases Nat.lt_trichotomy j t.length with hj | rfl | hj
    · rw [List.getElem?_append_left hj]
      simp [Nat.ne_of_lt hj]
    · rw [List.getElem?_concat_length, List.getElem?_eq_none (Nat.le_refl _)]
      simp [eq_comm]
    · rw [List.getElem?_eq_none (by rwa [List.length_append]),
        List.getElem?_eq_none (Nat.le_of_lt hj)]
      simp [Nat.ne_of_gt hj]

theorem claim_length {max : Nat} {a : ι} {t t' : List (Option ι)} {i : Nat}
    (h : claim max a t = some (i, t')) (hlen : t.length ≤ max) : t'.length ≤ max := by
  rcases claim_cases h with ⟨-, rfl⟩ | ⟨-, hroom, rfl⟩
  · rwa [List.length_set]
  · rw [List.length_append, List.length_singleton]
    exact hroom

/-- **A claim succeeds while there are fewer holders than entries**: a table that turns a claim away
has no free entry, so it has as many holders as entries. -/
theorem claim_isSome {max : Nat} {t : List (Option ι)} (a : ι) {S : Finset ι}
    (hone : ∀ i j b, Holds t i b → Holds t j b → i = j) (hmem : ∀ i b, Holds t i b → b ∈ S)
    (hfew : S.card < max) : (claim max a t).isSome = true := by
  unfold claim
  split
  · rfl
  rename_i hfull
  split
  · rfl
  rename_i hroom
  -- each index of the prefix has an owner of its own
  have howner (i : Nat) (hi : i ∈ Finset.range t.length) : ∃ b, Holds t i b := by
    have hlt := Finset.mem_range.mp hi
    have hsome := List.findIdx?_eq_none_iff.mp hfull t[i] (List.getElem_mem hlt)
    obtain ⟨b, hb⟩ := Option.isSome_iff_exists.mp (Option.isNone_eq_false_iff.mp hsome)
    exact ⟨b, by rw [Holds, List.getElem?_eq_getElem hlt, hb]⟩
  have : Nonempty ι := ⟨a⟩
  choose! owner howner using howner
  have hcard : (Finset.range t.length).card ≤ S.card := by
    refine Finset.card_le_card_of_injOn owner (fun i hi => hmem i _ (howner i hi)) ?_
    intro i hi j hj heq
    exact hone i j (owner i) (howner i hi) (heq ▸ howner j hj)
  rw [Finset.card_range] at hcard
  omega

/-! ## 2. A release -/

section Release

variable [DecidableEq ι]

theorem release_length (i : Nat) (a : ι) (t : List (Option ι)) :
    (release i a t).length = t.length := by
  unfold release
  split
  · exact List.length_set
  · rfl

/-- **A release takes one holder away.** -/
theorem holds_release (i : Nat) (a : ι) (t : List (Option ι)) (j : Nat) (b : ι) :
    Holds (release i a t) j b ↔ Holds t j b ∧ ¬ (j = i ∧ b = a) := by
  unfold release Holds
  split
  · rename_i hheld
    by_cases hj : j = i
    · subst hj
      have hlt : j < t.length := (List.getElem?_eq_some_iff.mp hheld).1
      rw [List.getElem?_set_self hlt, hheld]
      simp [eq_comm]
    · rw [List.getElem?_set_ne (Ne.symm hj)]
      simp [hj]
  · rename_i hother
    refine ⟨fun h => ⟨h, ?_⟩, fun h => h.1⟩
    rintro ⟨rfl, rfl⟩
    exact hother h

end Release

end SlotTable
