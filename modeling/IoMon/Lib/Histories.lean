/-
# Histories

A component that records what it does leaves a list of events, the oldest first.  Rules of the kind
"at most once", "only after" and "never again after" all say of each event whether the events before
it ALLOW it.  `Lawful allowed` is the list in which every event was allowed when it happened; a list
grows by one event at its end, so `Lawful.concat` is the step of every induction.

  * `Lawful.count_le_one` -- an event that forbids itself happens once;
  * `Lawful.not_mem_after` -- an event that is forbidden after another never follows it.
-/
import Mathlib.Data.List.Count
import Mathlib.Data.List.Induction

namespace IoMon.Histories

variable {ε : Type} {allowed : List ε → ε → Prop}

/-- Every event was allowed by those before it. -/
def Lawful (allowed : List ε → ε → Prop) (history : List ε) : Prop :=
  ∀ before e after, history = before ++ e :: after → allowed before e

theorem Lawful.nil : Lawful allowed [] := by
  intro before e after h
  cases before <;> cases h

theorem Lawful.concat {history : List ε} {e : ε} (h : Lawful allowed history)
    (he : allowed history e) : Lawful allowed (history ++ [e]) := by
  intro before d after heq
  rcases List.eq_nil_or_concat after with rfl | ⟨init, last, rfl⟩
  · obtain ⟨rfl, hd⟩ := List.append_inj' heq rfl
    cases hd
    exact he
  · have hsplit : history ++ [e] = (before ++ d :: init) ++ [last] := by
      rw [heq]
      simp
    obtain ⟨rfl, -⟩ := List.append_inj' hsplit rfl
    exact h before d init rfl

/-- A prefix of a lawful history is one. -/
theorem Lawful.of_append {before after : List ε} (h : Lawful allowed (before ++ after)) :
    Lawful allowed before := by
  intro first e rest heq
  exact h first e (rest ++ after) (by rw [heq]; simp)

/-- **At most once.** -/
theorem Lawful.count_le_one [DecidableEq ε] {history : List ε} {e : ε}
    (honce : ∀ before, allowed before e → e ∉ before) :
    Lawful allowed history → history.count e ≤ 1 := by
  induction history using List.reverseRecOn with
  | nil => intro _; simp
  | append_singleton history d ih =>
      intro h
      rw [List.count_append, List.count_singleton]
      by_cases hd : d = e
      · subst hd
        have hnot : d ∉ history := honce history (h history d [] rfl)
        simp [List.count_eq_zero_of_not_mem hnot]
      · have hle := ih h.of_append
        simp [hd, hle]

/-- **Never after.**  Where `a` forbids `b` it is not followed by one. -/
theorem Lawful.not_mem_after {before after : List ε} {a b : ε}
    (hforbids : ∀ first, allowed first b → a ∉ first)
    (h : Lawful allowed (before ++ a :: after)) : b ∉ after := by
  intro hb
  obtain ⟨first, rest, rfl⟩ := List.append_of_mem hb
  refine hforbids (before ++ a :: first) (h _ b rest (by simp)) ?_
  simp

end IoMon.Histories
