/-
# One entry per key

Passes that report each subject once keep a set of the keys they have already reported.
`firstPerKey` is that loop over a list of keyed entries: the first entry of each key survives.
What callers need of it is that it invents nothing, covers every key, and is empty only on an
empty list.
-/
import Mathlib.Data.List.Basic

namespace Keyed

variable {κ β : Type} [DecidableEq κ]

/-- The first entry of each key, in order. -/
def firstPerKey : List (κ × β) → List (κ × β)
  | [] => []
  | p :: ps => p :: (firstPerKey ps).filter fun q => q.1 ≠ p.1

theorem mem_of_mem_firstPerKey {ps : List (κ × β)} {p : κ × β} (h : p ∈ firstPerKey ps) :
    p ∈ ps := by
  induction ps with
  | nil => exact h
  | cons a ps ih =>
    rcases List.mem_cons.mp h with rfl | h
    · exact List.mem_cons_self ..
    · exact List.mem_cons_of_mem _ (ih (List.mem_filter.mp h).1)

/-- **Every key is represented.** -/
theorem exists_mem_firstPerKey {ps : List (κ × β)} {p : κ × β} (h : p ∈ ps) :
    ∃ q ∈ firstPerKey ps, q.1 = p.1 := by
  induction ps with
  | nil => exact absurd h (by simp)
  | cons a ps ih =>
    rcases List.mem_cons.mp h with rfl | h
    · exact ⟨p, List.mem_cons_self .., rfl⟩
    obtain ⟨q, hq, hk⟩ := ih h
    by_cases he : q.1 = a.1
    · exact ⟨a, List.mem_cons_self .., by rw [← hk, he]⟩
    · exact ⟨q, List.mem_cons_of_mem _ (List.mem_filter.mpr ⟨hq, by simpa using he⟩), hk⟩

theorem firstPerKey_eq_nil {ps : List (κ × β)} : firstPerKey ps = [] ↔ ps = [] := by
  cases ps with
  | nil => exact Iff.rfl
  | cons p ps => simp only [firstPerKey, reduceCtorEq]

end Keyed
