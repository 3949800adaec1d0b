/-
# The read tail and the order of its markers

The net counts markers; it does not look at their order.  Its comment says why that is enough:
the writer's mark and clear alternate strictly per thread, so a thread has at most one pending
marker too many.  Under that assumption counting is sound (`excess_of_alternating`).

The assumption is the writer's, not the format's.  The signal-safe flush writes a committed
marker without looking at the sentinel, so a file can hold a committed marker with no pending one
before it; that marker then pays for a pending marker written later, whose records were never
flushed.  `readTail_order_iff` says exactly when the merge still notices.
-/
import IoMon.Merge.Verdict

namespace IoMon

open ByteText MonitorRecordKind MonitorObservationKind MonitorCompleteness

/-! ## 1. Pending markers that nothing follows -/

/-- In this list some pending marker of the thread has no committed marker of the thread behind
it. -/
def UnfollowedIn (records : List MonitorRecord) (key : ThreadKey) : Prop :=
  ∃ pre p post, records = pre ++ p :: post ∧ isPendingMarker p = true ∧ threadKey p = key ∧
    ∀ c ∈ post, isCommittedMarker c = true → threadKey c ≠ key

/-- The frames of one fragment that belong to this run, in file order. -/
def keptFrames (m : MergeInput) (e : FragmentEntry) : List MonitorRecord :=
  e.records.filter fun r => staleAction (capturedRecords m) m.runScope r == .keep

/-- Reading the thread's frames in file order, some pending marker is not followed by a committed
one. -/
def UnfollowedPending (m : MergeInput) (key : ThreadKey) : Prop :=
  ∃ e ∈ m.fragments, UnfollowedIn (keptFrames m e) key

/-- **Counting is sound while the markers alternate.**  If no prefix of the list has more
committed than pending markers of the thread, an unfollowed pending marker shows in the counts. -/
theorem excess_of_alternating {records : List MonitorRecord} {key : ThreadKey}
    (halt : ∀ n, committedCount (records.take n) key ≤ pendingCount (records.take n) key)
    (h : UnfollowedIn records key) : committedCount records key < pendingCount records key := by
  obtain ⟨pre, p, post, rfl, hp, hk, hpost⟩ := h
  have hpre := halt pre.length
  rw [List.take_left] at hpre
  have hnone : committedCount (p :: post) key = 0 := by
    rw [committedCount, List.countP_eq_zero]
    intro c hc hcm
    simp only [Bool.and_eq_true, beq_iff_eq] at hcm
    rcases List.mem_cons.mp hc with rfl | hc
    · -- a pending marker is no committed one
      simp only [isPendingMarker, isCommittedMarker, Bool.and_eq_true, startsWith] at hp hcm
      obtain ⟨s, hs⟩ := List.isPrefixOf_iff_prefix.mp hp.2
      obtain ⟨t, ht⟩ := List.isPrefixOf_iff_prefix.mp hcm.1.2
      have := hs.trans ht.symm
      have h10 := congrArg (fun l => l[10]?) this
      exact absurd h10 (by
        rw [List.getElem?_append_left (by decide), List.getElem?_append_left (by decide)]
        decide)
    · exact hpost c hc hcm.1 hcm.2
  have hone : 0 < pendingCount (p :: post) key := by
    rw [pendingCount, List.countP_pos_iff]
    exact ⟨p, List.mem_cons_self .., by simp [hp, hk]⟩
  simp only [committedCount, pendingCount, List.countP_append] at hpre hnone hone ⊢
  omega

/-! ## 2. When the merge notices -/

/-- **What the net decides about an unfollowed pending marker.**  The merge is incomplete for it
exactly when some thread's pending markers outnumber its committed ones, or when the capture is
incomplete for a reason that is not the read tail. -/
theorem readTail_order_iff (m : MergeInput) (key : ThreadKey) :
    (UnfollowedPending m key → (mergeFragments m).completeness = mcIncomplete) ↔
      (UnfollowedPending m key →
        (∃ k, committedCount (keptRecords m) k < pendingCount (keptRecords m) k) ∨
          ¬ (profileComplete (canonicalize (declaredProfiles m)) ∧ CaptureSpec isLoss m)) := by
  have hinc : (mergeFragments m).completeness = mcIncomplete ↔
      ¬ (mergeFragments m).completeness = mcComplete := by
    cases (mergeFragments m).completeness <;> simp
  refine imp_congr_right fun _ => ?_
  rw [hinc, mergeFragments_complete_iff_profile]
  constructor
  · intro h
    by_cases hc : profileComplete (canonicalize (declaredProfiles m)) ∧ CaptureSpec isLoss m
    · left
      by_contra hno
      push Not at hno
      exact h ⟨hc.1, ⟨hc.2, hno⟩⟩
    · exact .inr hc
  · rintro (⟨k, hk⟩ | hc) ⟨hp, hv⟩
    · have := hv.readTail k
      omega
    · exact hc ⟨hp, hv.toCaptureSpec⟩

/-! ## 3. A surplus committed marker -/

/-- The marker frame of thread 7 of process 7. -/
def tailMarker (detail : NimStr) : MonitorRecord where
  kind := mrEventLoss
  observationKind := moEventLoss
  osPid := 7
  threadId := 7
  detail := detail

/-- A fragment as a signal-safe flush followed by a kill leaves it: a committed marker that no
pending one precedes, then a pending marker whose records were never written. -/
def surplusFrames : List MonitorRecord :=
  [tailMarker ReadTailCommittedDetail, tailMarker ReadTailPendingDetail]

/-- **Counting loses the order.**  The pending marker is last in its file, and the merge is
complete. -/
theorem readTail_order_refuted : ¬ ∀ (m : MergeInput) (key : ThreadKey),
    UnfollowedPending m key → (mergeFragments m).completeness = mcIncomplete := by
  intro hclaim
  let surplusCapture := frameCapture surplusFrames
  obtain ⟨hfrag, hcap, hent⟩ := frameCapture_records
    (show ∀ r ∈ surplusFrames, FitsWire r by decide)
  have hkept : keptRecords surplusCapture = surplusFrames := by
    rw [keptRecords, hcap]; decide
  have hunf : UnfollowedPending surplusCapture (7, 7) := by
    obtain ⟨e, he⟩ : ∃ e, e ∈ surplusCapture.fragments := ⟨_, by
      rw [hfrag]; exact List.mem_singleton_self _⟩
    refine ⟨e, he, ?_⟩
    have hframes : keptFrames surplusCapture e = surplusFrames := by
      rw [keptFrames, (hent e he).1, hcap]
      decide
    rw [hframes]
    exact ⟨[tailMarker ReadTailCommittedDetail], tailMarker ReadTailPendingDetail, [], rfl,
      by decide, rfl, by simp⟩
  have hspec : VerdictSpec isLoss surplusCapture := by
    refine ⟨?_, ?_⟩
    · constructor
      · exact fun e he => (hent e he).2
      · rw [hcap]; decide
      · rw [hkept]; decide
      · decide
      · decide
      · rw [hkept]; decide
      · intro pid hnamed
        rcases hnamed with ⟨r, hr, hn, _⟩ | ⟨hne, _⟩
        · rw [hkept] at hr
          have : ∀ r ∈ surplusFrames, namesChild r = false := by decide
          rw [this r hr] at hn
          exact absurd hn (by simp)
        · exact absurd rfl hne
      · rw [hkept]; decide
      · rw [hkept]; decide
    · intro key
      have hkey : ∀ d, threadKey (tailMarker d) = (7, 7) := fun _ => rfl
      rw [hkept]
      by_cases h : ((7, 7) : ThreadKey) = key
      · subst h; decide
      · simp [pendingCount, committedCount, surplusFrames, hkey, h]
  have hprof : ∀ r ∈ capturedRecords surplusCapture, r.kind ≠ mrBackendProfile := by
    rw [hcap]; decide
  have hcomplete := (mergeFragments_complete_iff hprof).mpr hspec
  rw [hclaim surplusCapture (7, 7) hunf] at hcomplete
  exact absurd hcomplete (by simp)

end IoMon
