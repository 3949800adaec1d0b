/-
# The anonymous-range table

The mmap hooks keep a table of the private anonymous ranges they saw being created, so that a later
`mprotect` can tell memory the preload layer owns from memory it knows nothing about.  The kernel
maps, unmaps and moves whole pages; the table takes the lengths of the calls as they are.

  * `rangeFullyTrackedLocked_iff` -- the sorted sweep answers exactly whether an interval is
    covered, for every table;
  * `anonymousRanges_track_ownership` -- the table against the bytes the kernel has given out, over
    whole runs: it is right while the bytes between a length and the end of its last page make no
    difference (`FitsRun`), and, while it has not been full, only then.
-/
import Mathlib.Data.Set.Insert
import Mathlib.Tactic.Ring
import Mathlib.Order.Interval.Set.Basic
import IoMon.Lib.Intervals

namespace IoMon

open Intervals

/-! ## 1. The table and its operations -/

def anonymousRangeCap : Nat := 4096

/-- `anonymousExecutableRanges` up to `anonymousExecutableRangeCount`. -/
structure AnonymousRanges where
  ranges : List (Range Nat)
  bounded : ranges.length ≤ anonymousRangeCap

def emptyRanges : AnonymousRanges := ⟨[], Nat.zero_le _⟩

/-- Addition of `uint`s. -/
def addrAdd (a b : Nat) : Nat := (a + b) % 2 ^ 64

/-- `value != nil and cast[int](value) != -1`. -/
def isSuccessfulMmapResult (value : Nat) : Bool := value != 0 && value != 2 ^ 64 - 1

/-- Appending a range; a full table drops its oldest one. -/
def AnonymousRanges.push (t : AnonymousRanges) (r : Range Nat) : AnonymousRanges :=
  if h : t.ranges.length < anonymousRangeCap then
    ⟨t.ranges ++ [r], by rw [List.length_append, List.length_singleton]; omega⟩
  else
    ⟨t.ranges.drop 1 ++ [r], by
      have := t.bounded
      have : anonymousRangeCap = 4096 := rfl
      rw [List.length_append, List.length_drop, List.length_singleton]
      omega⟩

def recordAnonymousPrivateMmap (t : AnonymousRanges) (result length : Nat) : AnonymousRanges :=
  if !isSuccessfulMmapResult result || length == 0 then t
  else if addrAdd result length ≤ result then t
  else t.push ⟨result, addrAdd result length⟩

/-- Every tracked range is cut; what does not fit is left out. -/
def removeAnonymousPrivateRange (t : AnonymousRanges) (address length : Nat) : AnonymousRanges :=
  if address == 0 || length == 0 then t
  else if addrAdd address length ≤ address then t
  else
    ⟨(t.ranges.flatMap (cut address (addrAdd address length))).take anonymousRangeCap,
      List.length_take_le ..⟩

/-- One tracked range: its part inside `[start, stop)` goes to its place among the others. -/
def addIntersection (start stop : Nat) (intersections : List (Range Nat)) (tracked : Range Nat) :
    List (Range Nat) :=
  if rangesIntersect start stop tracked.start tracked.stop &&
      decide (intersections.length < anonymousRangeCap) then
    insertByStart (clip start stop tracked) intersections
  else intersections

/-- The intersections with `[start, stop)`, clipped and in the order of their starts. -/
def sortedIntersections (start stop : Nat) (ranges : List (Range Nat)) : List (Range Nat) :=
  ranges.foldl (addIntersection start stop) []

def rangeFullyTrackedLocked (t : AnonymousRanges) (start stop : Nat) : Bool :=
  if stop ≤ start then false
  else
    let intersections := sortedIntersections start stop t.ranges
    if intersections.length == 0 then false else sweep start stop intersections

/-- The answer, and the table after it. -/
def remapAnonymousPrivateRange (t : AnonymousRanges)
    (oldAddress oldSize newAddress newSize : Nat) : Bool × AnonymousRanges :=
  if oldAddress == 0 || oldSize == 0 then (false, t)
  else if addrAdd oldAddress oldSize ≤ oldAddress then (false, t)
  else
    let tracked := rangeFullyTrackedLocked t oldAddress (addrAdd oldAddress oldSize)
    let removed := removeAnonymousPrivateRange t oldAddress oldSize
    (tracked, if tracked then recordAnonymousPrivateMmap removed newAddress newSize else removed)

/-! ## 2. The sweep is exact -/

theorem addIntersection_fold (start stop : Nat) (ranges : List (Range Nat)) :
    ∀ sorted : List (Range Nat), sorted.length + ranges.length ≤ anonymousRangeCap →
      SortedByStart sorted →
      SortedByStart (ranges.foldl (addIntersection start stop) sorted) ∧
      ∀ r, r ∈ ranges.foldl (addIntersection start stop) sorted ↔
        r ∈ sorted ∨ ∃ tracked ∈ ranges,
          rangesIntersect start stop tracked.start tracked.stop = true ∧
            r = clip start stop tracked := by
  induction ranges with
  | nil => intro sorted _ h; simpa using h
  | cons tracked ranges ih =>
      intro sorted hlen h
      rw [List.length_cons] at hlen
      rw [List.foldl_cons]
      cases hmeet : rangesIntersect start stop tracked.start tracked.stop with
      | true =>
          have hroom : decide (sorted.length < anonymousRangeCap) = true :=
            decide_eq_true (by omega)
          have hadd : addIntersection start stop sorted tracked =
              insertByStart (clip start stop tracked) sorted := by
            rw [addIntersection, hmeet, hroom, Bool.and_self, if_pos rfl]
          obtain ⟨hs, hm⟩ := ih (insertByStart (clip start stop tracked) sorted)
            (by rw [length_insertByStart]; omega) (sorted_insertByStart _ h)
          rw [hadd]
          refine ⟨hs, fun r => ?_⟩
          rw [hm, mem_insertByStart]
          simp only [List.mem_cons, exists_eq_or_imp, hmeet, true_and]
          tauto
      | false =>
          have hadd : addIntersection start stop sorted tracked = sorted := by
            rw [addIntersection, hmeet, Bool.false_and, if_neg Bool.false_ne_true]
          obtain ⟨hs, hm⟩ := ih sorted (by omega) h
          rw [hadd]
          refine ⟨hs, fun r => ?_⟩
          rw [hm]
          simp only [List.mem_cons, exists_eq_or_imp, hmeet, Bool.false_eq_true, false_and,
            false_or]

theorem sortedIntersections_spec (t : AnonymousRanges) (start stop : Nat) :
    SortedByStart (sortedIntersections start stop t.ranges) ∧
    ∀ r, r ∈ sortedIntersections start stop t.ranges ↔ ∃ tracked ∈ t.ranges,
      rangesIntersect start stop tracked.start tracked.stop = true ∧
        r = clip start stop tracked := by
  obtain ⟨hs, hm⟩ := addIntersection_fold start stop t.ranges []
    (by rw [List.length_nil, Nat.zero_add]; exact t.bounded) List.Pairwise.nil
  refine ⟨hs, fun r => ?_⟩
  rw [sortedIntersections, hm]
  simp

/-- The clipped intersections cover what the table covers of the interval. -/
theorem cover_sortedIntersections (t : AnonymousRanges) (start stop : Nat) :
    cover (sortedIntersections start stop t.ranges) = cover t.ranges ∩ Set.Ico start stop := by
  have hmem := (sortedIntersections_spec t start stop).2
  ext x
  rw [Set.mem_inter_iff, Set.mem_Ico, mem_cover, mem_cover]
  constructor
  · rintro ⟨r, hr, hx⟩
    obtain ⟨tracked, htr, -, rfl⟩ := (hmem r).mp hr
    obtain ⟨hin, hx'⟩ := mem_clip.mp hx
    exact ⟨⟨tracked, htr, hx'⟩, hin⟩
  · rintro ⟨⟨tracked, htr, hx⟩, hin⟩
    exact ⟨clip start stop tracked,
      (hmem _).mpr ⟨tracked, htr, rangesIntersect_of_mem hin hx, rfl⟩,
      mem_clip.mpr ⟨hin, hx⟩⟩

/-- **The sweep is exact**: it says yes to the non-empty intervals the table covers. -/
theorem rangeFullyTrackedLocked_iff (t : AnonymousRanges) (start stop : Nat) :
    rangeFullyTrackedLocked t start stop = true ↔
      start < stop ∧ Set.Ico start stop ⊆ cover t.ranges := by
  unfold rangeFullyTrackedLocked
  split
  · next h => simp [Nat.not_lt.mpr h]
  · next h =>
      have hlt : start < stop := by omega
      have hsorted := (sortedIntersections_spec t start stop).1
      have hempty : (if (sortedIntersections start stop t.ranges).length == 0 then false
          else sweep start stop (sortedIntersections start stop t.ranges)) =
          sweep start stop (sortedIntersections start stop t.ranges) := by
        split
        · next h0 =>
            have hnil : sortedIntersections start stop t.ranges = [] := by simpa using h0
            rw [hnil]
            rfl
        · rfl
      dsimp only
      rw [hempty, sweep_iff stop _ hsorted hlt, cover_sortedIntersections,
        Set.subset_inter_iff]
      exact ⟨fun h => ⟨hlt, h.1⟩, fun h => ⟨h.2, Set.Subset.rfl⟩⟩

/-! ## 3. The kernel's side: whole pages -/

def pageSize : Nat := 4096

/-- A length rounded up to whole pages. -/
def pageRound (length : Nat) : Nat := (length + (pageSize - 1)) / pageSize * pageSize

/-- The bytes a call is about: from its address to the end of its last page. -/
def mapped (address length : Nat) : Set Nat := Set.Ico address (address + pageRound length)

/-- The bytes the table takes from the same call: its length as given, and nothing at `nil`. -/
def requested (address length : Nat) : Set Nat :=
  {x | address ≠ 0 ∧ address ≤ x ∧ x < address + length}

/-- Address and length of a call that succeeded: whole pages below the end of the address space. -/
structure PageCall (address length : Nat) : Prop where
  aligned : address % pageSize = 0
  nonzero : length ≠ 0
  inside : address + pageRound length < 2 ^ 64

theorem le_pageRound (length : Nat) : length ≤ pageRound length := by
  unfold pageRound pageSize
  omega

theorem requested_subset_mapped (address length : Nat) :
    requested address length ⊆ mapped address length := by
  rintro x ⟨-, h1, h2⟩
  exact ⟨h1, lt_of_lt_of_le h2 (Nat.add_le_add_left (le_pageRound length) address)⟩

theorem requested_eq_Ico {address : Nat} (h : address ≠ 0) (length : Nat) :
    requested address length = Set.Ico address (address + length) := by
  ext x
  simp [requested, h]

section PageCall

variable {address length : Nat} (hc : PageCall address length)

include hc

theorem PageCall.addrAdd_eq : addrAdd address length = address + length := by
  have := hc.inside
  have := le_pageRound length
  exact Nat.mod_eq_of_lt (by omega)

theorem PageCall.addrAdd_gt : ¬ addrAdd address length ≤ address := by
  have := hc.nonzero
  rw [hc.addrAdd_eq]
  omega

theorem PageCall.successful (h : address ≠ 0) : isSuccessfulMmapResult address = true := by
  have hal := hc.aligned
  have hne : address ≠ 2 ^ 64 - 1 := by
    rintro rfl
    simp [pageSize] at hal
  rw [isSuccessfulMmapResult, Bool.and_eq_true, bne_iff_ne, bne_iff_ne]
  exact ⟨h, hne⟩

/-- The first byte of each page of the call is among the bytes requested. -/
theorem PageCall.page_requested (h : address ≠ 0) {x : Nat} (hx : x ∈ mapped address length) :
    x / pageSize * pageSize ∈ requested address length := by
  have hal := hc.aligned
  have hnz := hc.nonzero
  obtain ⟨h1, h2⟩ := hx
  unfold pageRound pageSize at h2
  unfold pageSize at hal ⊢
  refine ⟨h, ?_, ?_⟩ <;> omega

/-- Whether a byte is among the bytes of the call is decided by its page. -/
theorem PageCall.mem_mapped_page (x : Nat) :
    x / pageSize * pageSize ∈ mapped address length ↔ x ∈ mapped address length := by
  have hal := hc.aligned
  unfold mapped pageRound pageSize at *
  simp only [Set.mem_Ico]
  omega

end PageCall

/-! ## 4. Calls, and what each side makes of them -/

inductive RangeOp
  | mmap (result length : Nat)
  | munmap (address length : Nat)
  | mremap (oldAddress oldSize newAddress newSize : Nat)

/-- The arguments of a successful call. -/
def RangeOp.FromKernel : RangeOp → Prop
  | .mmap result length => PageCall result length
  | .munmap address length => PageCall address length
  | .mremap oldAddress oldSize newAddress newSize =>
      PageCall oldAddress oldSize ∧ PageCall newAddress newSize

def rangeStep (t : AnonymousRanges) : RangeOp → AnonymousRanges
  | .mmap result length => recordAnonymousPrivateMmap t result length
  | .munmap address length => removeAnonymousPrivateRange t address length
  | .mremap oldAddress oldSize newAddress newSize =>
      (remapAnonymousPrivateRange t oldAddress oldSize newAddress newSize).2

def rangesAfter (ops : List RangeOp) : AnonymousRanges := ops.foldl rangeStep emptyRanges

/-- **The bytes of recorded mappings.**  An mmap adds its pages and an munmap takes its pages away.
An mremap of pages that were all of recorded mappings moves them; of others it takes away what it
moves, and what it moves onto. -/
def ownedStep (owned : Set Nat) : RangeOp → Set Nat
  | .mmap result length => owned ∪ mapped result length
  | .munmap address length => owned \ mapped address length
  | .mremap oldAddress oldSize newAddress newSize =>
      {x | (x ∈ owned ∧ x ∉ mapped oldAddress oldSize ∧
          (x ∈ mapped newAddress newSize → mapped oldAddress oldSize ⊆ owned)) ∨
        (x ∈ mapped newAddress newSize ∧ mapped oldAddress oldSize ⊆ owned)}

def ownedAfter (ops : List RangeOp) : Set Nat := ops.foldl ownedStep ∅

/-- The table's own effect on the bytes it covers, as long as it has room. -/
def requestedStep (covered : Set Nat) : RangeOp → Set Nat
  | .mmap result length => covered ∪ requested result length
  | .munmap address length => covered \ requested address length
  | .mremap oldAddress oldSize newAddress newSize =>
      (covered \ requested oldAddress oldSize) ∪
        {x | x ∈ requested newAddress newSize ∧ oldAddress ≠ 0 ∧
          requested oldAddress oldSize ⊆ covered}

/-- There is a free place in the table. -/
def NotFull (t : AnonymousRanges) : Prop := t.ranges.length < anonymousRangeCap

theorem requested_nil (length : Nat) : requested 0 length = ∅ := by
  ext x
  simp [requested]

theorem record_nil (t : AnonymousRanges) (length : Nat) :
    recordAnonymousPrivateMmap t 0 length = t := by
  simp [recordAnonymousPrivateMmap, isSuccessfulMmapResult]

theorem remove_nil (t : AnonymousRanges) (length : Nat) :
    removeAnonymousPrivateRange t 0 length = t := by
  simp [removeAnonymousPrivateRange]

section Cover

variable {t : AnonymousRanges} {address length : Nat} (hc : PageCall address length)

include hc

theorem PageCall.record_eq (h0 : address ≠ 0) :
    recordAnonymousPrivateMmap t address length = t.push ⟨address, address + length⟩ := by
  rw [recordAnonymousPrivateMmap, hc.successful h0]
  simp only [Bool.not_true, Bool.false_or, beq_iff_eq, hc.nonzero, if_false, hc.addrAdd_gt]
  rw [hc.addrAdd_eq]

theorem PageCall.remove_ranges (h0 : address ≠ 0) :
    (removeAnonymousPrivateRange t address length).ranges =
      (t.ranges.flatMap (cut address (address + length))).take anonymousRangeCap := by
  rw [removeAnonymousPrivateRange]
  simp only [beq_iff_eq, h0, hc.nonzero, if_false, hc.addrAdd_gt, Bool.or_eq_true, or_self]
  rw [hc.addrAdd_eq]

theorem cover_record_subset :
    cover (recordAnonymousPrivateMmap t address length).ranges ⊆
      cover t.ranges ∪ requested address length := by
  by_cases h0 : address = 0
  · rw [h0, record_nil]
    exact Set.subset_union_left
  · rw [hc.record_eq h0, requested_eq_Ico h0, AnonymousRanges.push]
    split
    · rw [cover_append, cover_cons, cover_nil, Set.union_empty]
    · rw [cover_append, cover_cons, cover_nil, Set.union_empty]
      exact Set.union_subset_union_left _ (cover_subset (List.drop_subset 1 t.ranges))

theorem cover_record_eq (hroom : NotFull (recordAnonymousPrivateMmap t address length)) :
    NotFull t ∧ cover (recordAnonymousPrivateMmap t address length).ranges =
      cover t.ranges ∪ requested address length := by
  by_cases h0 : address = 0
  · rw [h0, record_nil] at hroom ⊢
    exact ⟨hroom, by rw [requested_nil, Set.union_empty]⟩
  · have hbound := t.bounded
    rw [hc.record_eq h0, AnonymousRanges.push] at hroom ⊢
    split at hroom
    · next hnot =>
        refine ⟨hnot, ?_⟩
        rw [dif_pos hnot, cover_append, cover_cons, cover_nil, Set.union_empty,
          requested_eq_Ico h0]
    · next hfull =>
        rw [NotFull, List.length_append, List.length_drop, List.length_singleton] at hroom
        omega

theorem cover_remove_subset :
    cover (removeAnonymousPrivateRange t address length).ranges ⊆
      cover t.ranges \ requested address length := by
  by_cases h0 : address = 0
  · rw [h0, remove_nil, requested_nil, Set.sdiff_empty]
  · rw [requested_eq_Ico h0, hc.remove_ranges h0, ← cover_cut]
    exact cover_subset (List.take_subset ..)

theorem cover_remove_eq (hroom : NotFull (removeAnonymousPrivateRange t address length)) :
    cover (removeAnonymousPrivateRange t address length).ranges =
      cover t.ranges \ requested address length := by
  by_cases h0 : address = 0
  · rw [h0, remove_nil, requested_nil, Set.sdiff_empty]
  · rw [NotFull, hc.remove_ranges h0, List.length_take] at hroom
    rw [hc.remove_ranges h0, List.take_of_length_le (by omega), cover_cut, requested_eq_Ico h0]

/-- The question `remapAnonymousPrivateRange` asks first. -/
theorem PageCall.tracked_iff (h0 : address ≠ 0) :
    rangeFullyTrackedLocked t address (addrAdd address length) = true ↔
      requested address length ⊆ cover t.ranges := by
  have hgt := hc.addrAdd_gt
  rw [rangeFullyTrackedLocked_iff, requested_eq_Ico h0, hc.addrAdd_eq]
  rw [hc.addrAdd_eq] at hgt
  exact ⟨fun h => h.2, fun h => ⟨by omega, h⟩⟩

end Cover

theorem remap_nil (t : AnonymousRanges) (oldSize newAddress newSize : Nat) :
    (remapAnonymousPrivateRange t 0 oldSize newAddress newSize).2 = t := by
  simp [remapAnonymousPrivateRange]

theorem PageCall.remap_eq {t : AnonymousRanges} {oldAddress oldSize : Nat}
    (hc : PageCall oldAddress oldSize) (h0 : oldAddress ≠ 0) (newAddress newSize : Nat) :
    (remapAnonymousPrivateRange t oldAddress oldSize newAddress newSize).2 =
      if rangeFullyTrackedLocked t oldAddress (addrAdd oldAddress oldSize) then
        recordAnonymousPrivateMmap (removeAnonymousPrivateRange t oldAddress oldSize)
          newAddress newSize
      else removeAnonymousPrivateRange t oldAddress oldSize := by
  simp only [remapAnonymousPrivateRange, beq_iff_eq, h0, hc.nonzero, hc.addrAdd_gt, Bool.or_eq_true,
    or_self, if_false]

/-- **The table never covers more** than its calls asked for. -/
theorem cover_rangeStep_subset {t : AnonymousRanges} {op : RangeOp} (hk : op.FromKernel) :
    cover (rangeStep t op).ranges ⊆ requestedStep (cover t.ranges) op := by
  cases op with
  | mmap result length => exact cover_record_subset hk
  | munmap address length => exact cover_remove_subset hk
  | mremap oldAddress oldSize newAddress newSize =>
      obtain ⟨hold, hnew⟩ := hk
      by_cases h0 : oldAddress = 0
      · subst h0
        rw [rangeStep, remap_nil, requestedStep, requested_nil, Set.sdiff_empty]
        exact Set.subset_union_left
      · rw [rangeStep, hold.remap_eq h0, requestedStep]
        split
        · next htr =>
            have hsub := (hold.tracked_iff h0).mp htr
            refine (cover_record_subset hnew).trans
              (Set.union_subset_union (cover_remove_subset hold) fun x hx => ?_)
            exact ⟨hx, h0, hsub⟩
        · exact (cover_remove_subset hold).trans Set.subset_union_left

/-- **While it has room it covers exactly that.** -/
theorem cover_rangeStep_eq {t : AnonymousRanges} {op : RangeOp} (hk : op.FromKernel)
    (hroom : NotFull (rangeStep t op)) :
    cover (rangeStep t op).ranges = requestedStep (cover t.ranges) op := by
  cases op with
  | mmap result length => exact (cover_record_eq hk hroom).2
  | munmap address length => exact cover_remove_eq hk hroom
  | mremap oldAddress oldSize newAddress newSize =>
      obtain ⟨hold, hnew⟩ := hk
      by_cases h0 : oldAddress = 0
      · subst h0
        rw [rangeStep, remap_nil, requestedStep, requested_nil, Set.sdiff_empty]
        ext x
        simp
      · rw [rangeStep, hold.remap_eq h0] at hroom ⊢
        rw [requestedStep]
        split at hroom
        · next htr =>
            have hsub := (hold.tracked_iff h0).mp htr
            obtain ⟨hmid, heq⟩ := cover_record_eq hnew hroom
            rw [if_pos htr, heq, cover_remove_eq hold hmid]
            ext x
            simp [hsub, h0]
        · next htr =>
            have hsub : ¬ requested oldAddress oldSize ⊆ cover t.ranges := fun h =>
              htr ((hold.tracked_iff h0).mpr h)
            rw [if_neg htr, cover_remove_eq hold hroom]
            ext x
            simp [hsub]

/-! ## 5. When the two sides agree

The bytes in question are those between the length of a call and the end of its last page. -/

/-- The call leaves the table covering nothing that is gone. -/
def SoundFits (covered owned : Set Nat) : RangeOp → Prop
  | .mmap _ _ => True
  | .munmap address length => covered ∩ (mapped address length \ requested address length) = ∅
  | .mremap oldAddress oldSize newAddress newSize =>
      (mapped oldAddress oldSize ⊆ owned →
        covered ∩ (mapped oldAddress oldSize \ requested oldAddress oldSize) ⊆
          mapped newAddress newSize) ∧
      (¬ mapped oldAddress oldSize ⊆ owned →
        (covered \ requested oldAddress oldSize) ∩
          (mapped oldAddress oldSize ∪ mapped newAddress newSize) = ∅)

/-- The call leaves the table covering everything that is there. -/
def CompleteFits (covered owned : Set Nat) : RangeOp → Prop
  | .mmap result length => mapped result length \ requested result length ⊆ covered
  | .munmap _ _ => True
  | .mremap oldAddress oldSize newAddress newSize =>
      mapped oldAddress oldSize ⊆ owned →
        mapped newAddress newSize ⊆ (covered \ requested oldAddress oldSize) ∪
          {x | x ∈ requested newAddress newSize ∧ oldAddress ≠ 0}

/-- Ownership is a matter of whole pages. -/
def Paged (owned : Set Nat) : Prop := ∀ x, x / pageSize * pageSize ∈ owned ↔ x ∈ owned

theorem Paged.step {owned : Set Nat} (hp : Paged owned) {op : RangeOp} (hk : op.FromKernel) :
    Paged (ownedStep owned op) := by
  intro x
  cases op with
  | mmap result length =>
      simp only [ownedStep, Set.mem_union, hp x, PageCall.mem_mapped_page hk]
  | munmap address length =>
      simp only [ownedStep, Set.mem_sdiff, hp x, PageCall.mem_mapped_page hk]
  | mremap oldAddress oldSize newAddress newSize =>
      simp only [ownedStep, Set.mem_ofPred_eq, hp x, hk.1.mem_mapped_page, hk.2.mem_mapped_page]

/-- A page with one tracked byte is owned as a whole. -/
theorem Paged.mapped_subset {owned : Set Nat} (hp : Paged owned) {address length : Nat}
    (hc : PageCall address length) (h0 : address ≠ 0)
    (h : requested address length ⊆ owned) : mapped address length ⊆ owned := by
  intro x hx
  rw [← hp x]
  exact h (hc.page_requested h0 hx)

/-- **One call, soundness**: exactly when it fits. -/
theorem requestedStep_subset_iff {covered owned : Set Nat} (hsub : covered ⊆ owned)
    (hp : Paged owned) {op : RangeOp} (hk : op.FromKernel) :
    requestedStep covered op ⊆ ownedStep owned op ↔ SoundFits covered owned op := by
  cases op with
  | mmap result length =>
      simp only [SoundFits, iff_true]
      exact Set.union_subset_union hsub (requested_subset_mapped result length)
  | munmap address length =>
      rw [SoundFits, Set.eq_empty_iff_forall_notMem]
      constructor
      · rintro h x ⟨hx, hin, hout⟩
        exact (h ⟨hx, hout⟩).2 hin
      · rintro h x ⟨hx, hout⟩
        exact ⟨hsub hx, fun hin => h x ⟨hx, hin, hout⟩⟩
  | mremap oldAddress oldSize newAddress newSize =>
      constructor
      · intro h
        constructor
        · rintro hown x ⟨hx, hin, hout⟩
          rcases h (.inl ⟨hx, hout⟩) with ⟨-, hnot, -⟩ | ⟨hnew, -⟩
          · exact absurd hin hnot
          · exact hnew
        · intro hnown
          rw [Set.eq_empty_iff_forall_notMem]
          rintro x ⟨⟨hx, hout⟩, hin⟩
          rcases h (.inl ⟨hx, hout⟩) with ⟨-, hnot, hnew⟩ | ⟨-, hown⟩
          · exact hnown (hnew (hin.resolve_left hnot))
          · exact hnown hown
      · rintro ⟨hmoves, hdrops⟩ x (⟨hx, hout⟩ | ⟨hnew, h0, htracked⟩)
        · by_cases hown : mapped oldAddress oldSize ⊆ owned
          · by_cases hin : x ∈ mapped oldAddress oldSize
            · exact .inr ⟨hmoves hown ⟨hx, hin, hout⟩, hown⟩
            · exact .inl ⟨hsub hx, hin, fun _ => hown⟩
          · have hnone := Set.eq_empty_iff_forall_notMem.mp (hdrops hown) x
            have hnot : x ∉ mapped oldAddress oldSize := fun h => hnone ⟨⟨hx, hout⟩, .inl h⟩
            exact .inl ⟨hsub hx, hnot, fun h => absurd ⟨⟨hx, hout⟩, .inr h⟩ hnone⟩
        · have hown := hp.mapped_subset hk.1 h0 (htracked.trans hsub)
          exact .inr ⟨requested_subset_mapped _ _ hnew, hown⟩

/-- **One call, completeness**: exactly when it fits. -/
theorem subset_requestedStep_iff {covered owned : Set Nat} (hsub : owned ⊆ covered)
    (op : RangeOp) :
    ownedStep owned op ⊆ requestedStep covered op ↔ CompleteFits covered owned op := by
  cases op with
  | mmap result length =>
      constructor
      · rintro h x ⟨hin, hout⟩
        exact (h (.inr hin)).resolve_right hout
      · rintro h x (hx | hin)
        · exact .inl (hsub hx)
        · by_cases hreq : x ∈ requested result length
          · exact .inr hreq
          · exact .inl (h ⟨hin, hreq⟩)
  | munmap address length =>
      simp only [CompleteFits, iff_true]
      rintro x ⟨hx, hout⟩
      exact ⟨hsub hx, fun h => hout (requested_subset_mapped _ _ h)⟩
  | mremap oldAddress oldSize newAddress newSize =>
      constructor
      · intro h hown x hx
        rcases h (.inr ⟨hx, hown⟩) with hold | ⟨hnew, h0, -⟩
        · exact .inl hold
        · exact .inr ⟨hnew, h0⟩
      · rintro h x (⟨hx, hout, -⟩ | ⟨hnew, hown⟩)
        · exact .inl ⟨hsub hx, fun hin => hout (requested_subset_mapped _ _ hin)⟩
        · rcases h hown hnew with hold | ⟨hreq, h0⟩
          · exact .inl hold
          · exact .inr ⟨hreq, h0, (requested_subset_mapped _ _).trans (hown.trans hsub)⟩

/-! ## 6. Whole runs -/

/-- The table had a free place after every call so far. -/
def NeverFull (ops : List RangeOp) : Prop := ∀ pre, pre <+: ops → NotFull (rangesAfter pre)

/-- **Exact ownership.**  After each call the table covers only bytes of recorded mappings, and all
of them if it has never been full. -/
def TracksOwnership (ops : List RangeOp) : Prop :=
  ∀ pre, pre <+: ops → cover (rangesAfter pre).ranges ⊆ ownedAfter pre ∧
    (NeverFull pre → ownedAfter pre ⊆ cover (rangesAfter pre).ranges)

/-- Each call fits the table and the memory it finds. -/
def FitsRun (ops : List RangeOp) : Prop :=
  ∀ pre op, pre ++ [op] <+: ops →
    SoundFits (cover (rangesAfter pre).ranges) (ownedAfter pre) op ∧
    (NeverFull (pre ++ [op]) →
      CompleteFits (cover (rangesAfter pre).ranges) (ownedAfter pre) op)

theorem rangesAfter_concat (pre : List RangeOp) (op : RangeOp) :
    rangesAfter (pre ++ [op]) = rangeStep (rangesAfter pre) op := by
  simp [rangesAfter]

theorem ownedAfter_concat (pre : List RangeOp) (op : RangeOp) :
    ownedAfter (pre ++ [op]) = ownedStep (ownedAfter pre) op := by
  simp [ownedAfter]

theorem paged_ownedAfter (ops : List RangeOp) :
    (∀ op ∈ ops, op.FromKernel) → Paged (ownedAfter ops) := by
  induction ops using List.reverseRecOn with
  | nil => intro _ x; exact Iff.rfl
  | append_singleton ops op ih =>
      intro hk
      rw [ownedAfter_concat]
      exact (ih fun o ho => hk o (List.mem_append_left _ ho)).step (hk op (by simp))

theorem NeverFull.concat_left {pre : List RangeOp} {op : RangeOp} (h : NeverFull (pre ++ [op])) :
    NeverFull pre ∧ NotFull (rangeStep (rangesAfter pre) op) :=
  ⟨fun p hp => h p (hp.trans (List.prefix_append ..)),
    rangesAfter_concat pre op ▸ h _ (List.prefix_refl _)⟩

/-- A fitting run tracks ownership: the induction over the calls. -/
theorem FitsRun.tracks {ops : List RangeOp} (hk : ∀ op ∈ ops, op.FromKernel) (hfits : FitsRun ops) :
    TracksOwnership ops := by
  intro pre
  induction pre using List.reverseRecOn with
  | nil => intro _; simp [rangesAfter, emptyRanges, ownedAfter]
  | append_singleton pre op ih =>
      intro hpre
      have hpre' : pre <+: ops := (List.prefix_append ..).trans hpre
      have hkop : op.FromKernel := hk op (hpre.subset (by simp))
      have hpaged := paged_ownedAfter pre fun o ho => hk o (hpre'.subset ho)
      obtain ⟨hsound, hcomplete⟩ := ih hpre'
      obtain ⟨hsf, hcf⟩ := hfits pre op hpre
      rw [rangesAfter_concat, ownedAfter_concat]
      refine ⟨(cover_rangeStep_subset hkop).trans
        ((requestedStep_subset_iff hsound hpaged hkop).mpr hsf), fun hnever => ?_⟩
      obtain ⟨hnever', hroom⟩ := hnever.concat_left
      rw [cover_rangeStep_eq hkop hroom]
      exact (subset_requestedStep_iff (hcomplete hnever') op).mpr (hcf hnever)

/-- In a run that never filled the table, only a fitting run tracks ownership. -/
theorem TracksOwnership.fits {ops : List RangeOp} (hk : ∀ op ∈ ops, op.FromKernel)
    (hnever : NeverFull ops) (h : TracksOwnership ops) : FitsRun ops := by
  intro pre op hpre
  have hpre' : pre <+: ops := (List.prefix_append ..).trans hpre
  have hkop : op.FromKernel := hk op (hpre.subset (by simp))
  have hpaged := paged_ownedAfter pre fun o ho => hk o (hpre'.subset ho)
  have hnever' : NeverFull (pre ++ [op]) := fun p hp => hnever p (hp.trans hpre)
  obtain ⟨hbefore, hroom⟩ := hnever'.concat_left
  obtain ⟨hsound, hcomplete⟩ := h pre hpre'
  obtain ⟨hsound', hcomplete'⟩ := h (pre ++ [op]) hpre
  rw [rangesAfter_concat, ownedAfter_concat, cover_rangeStep_eq hkop hroom] at hsound' hcomplete'
  exact ⟨(requestedStep_subset_iff hsound hpaged hkop).mp hsound',
    fun _ => (subset_requestedStep_iff (hcomplete hbefore) op).mp (hcomplete' hnever')⟩

/-- **The table tracks ownership in every run whose calls fit**, and, while it has a free place, in
no other; and in every state the sweep answers exactly for the intervals it is asked about. -/
theorem anonymousRanges_track_ownership (ops : List RangeOp)
    (hk : ∀ op ∈ ops, op.FromKernel) :
    (FitsRun ops → TracksOwnership ops) ∧
    (NeverFull ops → TracksOwnership ops → FitsRun ops) ∧
    ∀ start stop, rangeFullyTrackedLocked (rangesAfter ops) start stop = true ↔
      start < stop ∧ ∀ x, start ≤ x → x < stop → x ∈ cover (rangesAfter ops).ranges := by
  refine ⟨fun h => h.tracks hk, fun hnever h => h.fits hk hnever, fun start stop => ?_⟩
  rw [rangeFullyTrackedLocked_iff]
  exact ⟨fun h => ⟨h.1, fun x h1 h2 => h.2 ⟨h1, h2⟩⟩, fun h => ⟨h.1, fun x hx => h.2 x hx.1 hx.2⟩⟩

/-- Lengths of whole pages, nothing at `nil`, and an mremap of recorded mappings only. -/
def RangeOp.WholePages (owned : Set Nat) : RangeOp → Prop
  | .mmap address length => address ≠ 0 ∧ pageSize ∣ length
  | .munmap address length => address ≠ 0 ∧ pageSize ∣ length
  | .mremap oldAddress oldSize newAddress newSize =>
      oldAddress ≠ 0 ∧ newAddress ≠ 0 ∧ pageSize ∣ oldSize ∧ pageSize ∣ newSize ∧
        mapped oldAddress oldSize ⊆ owned

theorem mapped_eq_requested {address length : Nat} (h0 : address ≠ 0) (hl : pageSize ∣ length) :
    mapped address length = requested address length := by
  obtain ⟨n, rfl⟩ := hl
  have hround : pageRound (pageSize * n) = pageSize * n := by
    unfold pageRound pageSize
    omega
  rw [requested_eq_Ico h0, mapped, hround]

/-- Calls in whole pages fit whatever the table covers. -/
theorem RangeOp.WholePages.fits {covered owned : Set Nat} {op : RangeOp}
    (h : op.WholePages owned) : SoundFits covered owned op ∧ CompleteFits covered owned op := by
  cases op with
  | mmap address length =>
      refine ⟨trivial, ?_⟩
      rw [CompleteFits, mapped_eq_requested h.1 h.2, Set.sdiff_self]
      exact Set.empty_subset _
  | munmap address length =>
      refine ⟨?_, trivial⟩
      rw [SoundFits, mapped_eq_requested h.1 h.2, Set.sdiff_self, Set.inter_empty]
  | mremap oldAddress oldSize newAddress newSize =>
      obtain ⟨h0, h0', hl, hl', hown⟩ := h
      refine ⟨⟨fun _ => ?_, fun hnot => absurd hown hnot⟩, fun _ x hx => ?_⟩
      · rw [mapped_eq_requested h0 hl, Set.sdiff_self, Set.inter_empty]
        exact Set.empty_subset _
      · rw [mapped_eq_requested h0' hl'] at hx
        exact .inr ⟨hx, h0⟩

/-- Three pages, and the middle one taken out again. -/
def splitInTheMiddle : List RangeOp := [.mmap 65536 12288, .munmap 69632 4096]

theorem anonymousRanges_track_ownership_split :
    (∀ op ∈ splitInTheMiddle, op.FromKernel) ∧ TracksOwnership splitInTheMiddle := by
  have hk : ∀ op ∈ splitInTheMiddle, op.FromKernel := by
    intro op hop
    simp only [splitInTheMiddle, List.mem_cons, List.not_mem_nil, or_false] at hop
    rcases hop with rfl | rfl
    · exact ⟨rfl, by decide, by decide⟩
    · exact ⟨rfl, by decide, by decide⟩
  refine ⟨hk, (anonymousRanges_track_ownership splitInTheMiddle hk).1 fun pre op hpre => ?_⟩
  have hop : op ∈ splitInTheMiddle := hpre.subset (by simp)
  have hwhole : op.WholePages (ownedAfter pre) := by
    simp only [splitInTheMiddle, List.mem_cons, List.not_mem_nil, or_false] at hop
    rcases hop with rfl | rfl
    · exact ⟨by decide, by decide⟩
    · exact ⟨by decide, by decide⟩
  exact ⟨hwhole.fits.1, fun _ => hwhole.fits.2⟩

/-- **Lengths below a page.**  The table does not cover the rest of the page an mmap of 100 bytes
was given, and goes on covering the rest of the page an munmap of one byte took away. -/
theorem partialPage_not_tracked :
    ((∀ op ∈ [RangeOp.mmap 65536 100], op.FromKernel) ∧
      ¬ TracksOwnership [.mmap 65536 100]) ∧
    ((∀ op ∈ [RangeOp.mmap 65536 4096, .munmap 65536 1], op.FromKernel) ∧
      ¬ TracksOwnership [.mmap 65536 4096, .munmap 65536 1]) := by
  refine ⟨⟨?_, fun h => ?_⟩, ?_, fun h => ?_⟩
  · intro op hop
    obtain rfl := List.mem_singleton.mp hop
    exact ⟨rfl, by decide, by decide⟩
  · have hnever : NeverFull [.mmap 65536 100] := by
      intro pre hpre
      have hlen : (rangesAfter pre).ranges.length ≤ 1 := by
        rcases List.prefix_cons_iff.mp hpre with rfl | ⟨t, rfl, ht⟩
        · decide
        · rw [List.prefix_nil.mp ht]
          decide
      exact lt_of_le_of_lt hlen (by decide)
    obtain ⟨r, hr, -, hlt⟩ := (h _ (List.prefix_refl _)).2 hnever
      (show 65636 ∈ ownedAfter [.mmap 65536 100] from .inr ⟨by decide, by decide⟩)
    have hr' : r = ⟨65536, 65636⟩ := List.mem_singleton.mp hr
    subst hr'
    exact absurd hlt (lt_irrefl _)
  · intro op hop
    simp only [List.mem_cons, List.not_mem_nil, or_false] at hop
    rcases hop with rfl | rfl
    · exact ⟨rfl, by decide, by decide⟩
    · exact ⟨rfl, by decide, by decide⟩
  · have hgone := (h _ (List.prefix_refl _)).1
      (show 65537 ∈ cover (rangesAfter [.mmap 65536 4096, .munmap 65536 1]).ranges from
        ⟨⟨65537, 69632⟩, by decide +kernel, by decide, by decide⟩)
    exact hgone.2 ⟨by decide, by decide⟩

end IoMon
