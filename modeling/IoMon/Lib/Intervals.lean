/-
# Finite lists of half-open intervals

A list of intervals stands for the set of points they cover.  Intervals may overlap, may be empty
and come in any order.

  * `cover_cut` -- cutting `[lo, hi)` out of every interval takes exactly these points away;
  * `sweep_iff` -- over intervals in the order of their starts, one pass with a cursor decides
    whether a whole interval is covered;
  * `mem_clip`, `sorted_insertByStart` -- the pass may look at the clipped intersections only,
    put in order by insertion.

Any linear order will do for the points.
-/
import Mathlib.Data.List.DropRight
import Mathlib.Data.Set.Basic
import Mathlib.Order.MinMax
import Mathlib.Order.Interval.Set.Defs

namespace Intervals

variable {α : Type} [LinearOrder α]

/-- The interval `[start, stop)`. -/
structure Range (α : Type) where
  start : α
  stop : α
  deriving DecidableEq, Repr

/-- The points of a list of intervals. -/
def cover (rs : List (Range α)) : Set α := {x | ∃ r ∈ rs, r.start ≤ x ∧ x < r.stop}

theorem mem_cover {rs : List (Range α)} {x : α} :
    x ∈ cover rs ↔ ∃ r ∈ rs, r.start ≤ x ∧ x < r.stop := Iff.rfl

@[simp] theorem cover_nil : cover ([] : List (Range α)) = ∅ := by
  ext x
  simp [mem_cover]

theorem cover_append (rs rs' : List (Range α)) : cover (rs ++ rs') = cover rs ∪ cover rs' := by
  ext x
  simp only [mem_cover, List.mem_append, Set.mem_union, or_and_right, exists_or]

theorem cover_cons (r : Range α) (rs : List (Range α)) :
    cover (r :: rs) = Set.Ico r.start r.stop ∪ cover rs := by
  ext x
  simp [mem_cover]

theorem cover_subset {rs rs' : List (Range α)} (h : rs ⊆ rs') : cover rs ⊆ cover rs' := by
  rintro x ⟨r, hr, hx⟩
  exact ⟨r, h hr, hx⟩

/-! ## 1. Cutting -/

/-- Do `[aStart, aStop)` and `[bStart, bStop)` meet? -/
def rangesIntersect (aStart aStop bStart bStop : α) : Bool :=
  decide (aStart < bStop) && decide (bStart < aStop)

/-- What is left of `r` outside `[lo, hi)`: nothing, one piece or two. -/
def cut (lo hi : α) (r : Range α) : List (Range α) :=
  if rangesIntersect lo hi r.start r.stop then
    (if r.start < lo then [⟨r.start, min lo r.stop⟩] else []) ++
      (if hi < r.stop then [⟨max hi r.start, r.stop⟩] else [])
  else [r]

theorem cover_cut_one (lo hi : α) (r : Range α) :
    cover (cut lo hi r) = Set.Ico r.start r.stop \ Set.Ico lo hi := by
  ext x
  unfold cut rangesIntersect
  by_cases hmeet : (decide (lo < r.stop) && decide (r.start < hi)) = true
  · rw [if_pos hmeet, cover_append]
    simp only [Bool.and_eq_true, decide_eq_true_eq] at hmeet
    have hleft : x ∈ cover (if r.start < lo then [⟨r.start, min lo r.stop⟩] else []) ↔
        r.start ≤ x ∧ x < lo ∧ x < r.stop := by
      split
      · simp [mem_cover]
      · next hge =>
          simp only [cover_nil, Set.mem_empty_iff_false, false_iff]
          rintro ⟨h1, h2, -⟩
          exact hge (lt_of_le_of_lt h1 h2)
    have hright : x ∈ cover (if hi < r.stop then [⟨max hi r.start, r.stop⟩] else []) ↔
        hi ≤ x ∧ r.start ≤ x ∧ x < r.stop := by
      split
      · simp [mem_cover, and_assoc]
      · next hge =>
          simp only [cover_nil, Set.mem_empty_iff_false, false_iff]
          rintro ⟨h1, -, h3⟩
          exact hge (lt_of_le_of_lt h1 h3)
    rw [Set.mem_union, hleft, hright, Set.mem_sdiff, Set.mem_Ico, Set.mem_Ico, not_and_or, not_le,
      not_lt]
    tauto
  · rw [if_neg hmeet, cover_cons, cover_nil, Set.union_empty]
    simp only [Bool.and_eq_true, decide_eq_true_eq, not_and_or, not_lt] at hmeet
    rw [Set.mem_sdiff, Set.mem_Ico, Set.mem_Ico]
    constructor
    · rintro ⟨h1, h2⟩
      refine ⟨⟨h1, h2⟩, ?_⟩
      rintro ⟨h3, h4⟩
      rcases hmeet with h | h
      · exact absurd (lt_of_lt_of_le h2 h) (not_lt.mpr h3)
      · exact absurd (lt_of_le_of_lt (le_trans h h1) h4) (lt_irrefl _)
    · exact fun h => h.1

/-- **Cutting takes exactly the points of `[lo, hi)` away.** -/
theorem cover_cut (lo hi : α) (rs : List (Range α)) :
    cover (rs.flatMap (cut lo hi)) = cover rs \ Set.Ico lo hi := by
  induction rs with
  | nil =>
      ext x
      simp
  | cons r rs ih =>
      ext x
      rw [List.flatMap_cons, cover_append, cover_cut_one, ih, cover_cons]
      simp only [Set.mem_union, Set.mem_sdiff, or_and_right]

/-! ## 2. One pass over intervals in order -/

/-- In the order of their starts. -/
def SortedByStart (rs : List (Range α)) : Prop := rs.Pairwise fun a b => a.start ≤ b.start

/-- The pass: everything from the first point up to `cursor` is covered. -/
def sweep (cursor stop : α) : List (Range α) → Bool
  | [] => false
  | item :: rest =>
      if item.start > cursor then false
      else
        let cursor := if item.stop > cursor then item.stop else cursor
        if cursor ≥ stop then true else sweep cursor stop rest

/-- **The pass decides coverage.** -/
theorem sweep_iff (stop : α) (rs : List (Range α)) :
    ∀ {cursor}, SortedByStart rs → cursor < stop →
      (sweep cursor stop rs = true ↔ Set.Ico cursor stop ⊆ cover rs) := by
  induction rs with
  | nil =>
      intro cursor _ hlt
      simp only [sweep, Bool.false_eq_true, cover_nil, false_iff]
      exact fun h => h ⟨le_refl cursor, hlt⟩
  | cons item rest ih =>
      intro cursor hsorted hlt
      obtain ⟨hfirst, hrest⟩ := List.pairwise_cons.mp hsorted
      unfold sweep
      split
      · -- nothing that is left reaches back to the cursor
        next hgap =>
          simp only [Bool.false_eq_true, false_iff]
          intro h
          obtain ⟨r, hr, hx, -⟩ := h ⟨le_refl cursor, hlt⟩
          rcases List.mem_cons.mp hr with rfl | hmem
          · exact absurd hx (not_le.mpr hgap)
          · exact absurd (le_trans (hfirst r hmem) hx) (not_le.mpr hgap)
      · next hreach =>
          have hreach : item.start ≤ cursor := not_lt.mp hreach
          have hmoved : (if item.stop > cursor then item.stop else cursor) =
              max cursor item.stop := by
            split
            · next h => exact (max_eq_right h.le).symm
            · next h => exact (max_eq_left (not_lt.mp h)).symm
          simp only [hmoved]
          split
          · next hdone =>
              have hstop : stop ≤ item.stop := by
                rcases le_max_iff.mp hdone with h | h
                · exact absurd hlt (not_lt.mpr h)
                · exact h
              simp only [true_iff]
              intro x hx
              exact ⟨item, List.mem_cons_self .., le_trans hreach hx.1,
                lt_of_lt_of_le hx.2 hstop⟩
          · next hmore =>
              have hmore : max cursor item.stop < stop := not_le.mp hmore
              rw [ih hrest hmore]
              constructor
              · intro h x hx
                rcases lt_or_ge x item.stop with hin | hout
                · exact ⟨item, List.mem_cons_self .., le_trans hreach hx.1, hin⟩
                · exact cover_subset (List.subset_cons_self ..) (h ⟨max_le hx.1 hout, hx.2⟩)
              · intro h x hx
                obtain ⟨r, hr, hxr⟩ := h ⟨le_trans (le_max_left ..) hx.1, hx.2⟩
                rcases List.mem_cons.mp hr with rfl | hmem
                · exact absurd hxr.2 (not_lt.mpr (le_trans (le_max_right ..) hx.1))
                · exact ⟨r, hmem, hxr⟩

/-! ## 3. Clipped intersections, put in order -/

/-- Insertion from the tail: behind the last interval that does not start later. -/
def insertByStart (r : Range α) (sorted : List (Range α)) : List (Range α) :=
  sorted.rdropWhile (fun x => decide (x.start > r.start)) ++
    r :: sorted.rtakeWhile (fun x => decide (x.start > r.start))

theorem mem_insertByStart {r x : Range α} {sorted : List (Range α)} :
    x ∈ insertByStart r sorted ↔ x = r ∨ x ∈ sorted := by
  have hsplit := List.rdropWhile_append_rtakeWhile
    (p := fun x : Range α => decide (x.start > r.start)) (l := sorted)
  rw [insertByStart, List.mem_append, List.mem_cons]
  conv_rhs => rw [← hsplit, List.mem_append]
  tauto

theorem length_insertByStart (r : Range α) (sorted : List (Range α)) :
    (insertByStart r sorted).length = sorted.length + 1 := by
  have hsplit := congrArg List.length (List.rdropWhile_append_rtakeWhile
    (p := fun x : Range α => decide (x.start > r.start)) (l := sorted))
  rw [List.length_append] at hsplit
  rw [insertByStart, List.length_append, List.length_cons]
  omega

theorem sorted_insertByStart (r : Range α) {sorted : List (Range α)} (h : SortedByStart sorted) :
    SortedByStart (insertByStart r sorted) := by
  set later : Range α → Bool := fun x => decide (x.start > r.start) with hlater
  have hsplit : sorted.rdropWhile later ++ sorted.rtakeWhile later = sorted :=
    List.rdropWhile_append_rtakeWhile
  have hparts := h
  rw [SortedByStart, ← hsplit, List.pairwise_append] at hparts
  obtain ⟨hdrop, htake, hcross⟩ := hparts
  have hbefore : ∀ a ∈ sorted.rdropWhile later, a.start ≤ r.start := by
    intro a ha
    have hne : sorted.rdropWhile later ≠ [] := List.ne_nil_of_mem ha
    have hlast : ((sorted.rdropWhile later).getLast hne).start ≤ r.start := by
      have := List.rdropWhile_last_not later sorted hne
      simpa [hlater] using this
    rw [← List.dropLast_append_getLast hne] at hdrop ha
    rcases List.mem_append.mp ha with hinit | hend
    · exact le_trans ((List.pairwise_append.mp hdrop).2.2 a hinit _ (List.mem_singleton_self _))
        hlast
    · rw [List.mem_singleton.mp hend]
      exact hlast
  have hafter : ∀ b ∈ sorted.rtakeWhile later, r.start ≤ b.start := by
    intro b hb
    have := List.mem_rtakeWhile_imp hb
    exact (of_decide_eq_true this).le
  refine List.pairwise_append.mpr ⟨hdrop, List.pairwise_cons.mpr ⟨hafter, htake⟩, ?_⟩
  intro a ha b hb
  rcases List.mem_cons.mp hb with rfl | hmem
  · exact hbefore a ha
  · exact hcross a ha b hmem

/-- The part of `r` inside `[lo, hi)`. -/
def clip (lo hi : α) (r : Range α) : Range α := ⟨max lo r.start, min hi r.stop⟩

theorem mem_clip {lo hi x : α} {r : Range α} :
    ((clip lo hi r).start ≤ x ∧ x < (clip lo hi r).stop) ↔
      (lo ≤ x ∧ x < hi) ∧ (r.start ≤ x ∧ x < r.stop) := by
  simp only [clip, max_le_iff, lt_min_iff]
  tauto

/-- An interval with a point in `[lo, hi)` meets it. -/
theorem rangesIntersect_of_mem {lo hi x : α} {r : Range α} (hx : lo ≤ x ∧ x < hi)
    (hr : r.start ≤ x ∧ x < r.stop) : rangesIntersect lo hi r.start r.stop = true := by
  simp [rangesIntersect, lt_of_le_of_lt hx.1 hr.2, lt_of_le_of_lt hr.1 hx.2]

end Intervals
