/-
# Stable sorting by a key

A stable sort by a key forgets exactly one thing about a list: how elements with different keys
were interleaved.  Elements with the same key stay in the order they came in.

  * `filter_sortBy` -- the elements of one key, in their order;
  * `sortBy_eq_iff` -- two lists sort alike if and only if they agree key by key;
  * `sortBy_of_sorted` -- a sorted list is left alone;
  * `filter_sortBy_comm` -- a filter may come before the sort;
  * `ofKey_families_iff` -- lists made of one family per key agree key by key when the families do.

Nothing here knows what is sorted; the key lives in any linear order.
-/
import Mathlib.Data.List.Sort
import Mathlib.Order.Defs.LinearOrder

namespace StableSort

variable {α κ : Type} [LinearOrder κ] (key : α → κ)

/-- The stable sort by `key`. -/
def sortBy (l : List α) : List α := l.insertionSort fun a b => key a ≤ key b

/-- The elements with this key, in order. -/
def ofKey (k : κ) (l : List α) : List α := l.filter fun a => decide (key a = k)

/-- In key order. -/
def Sorted (l : List α) : Prop := l.Pairwise fun a b => key a ≤ key b

variable {key}

theorem mem_ofKey {k : κ} {l : List α} {a : α} : a ∈ ofKey key k l ↔ a ∈ l ∧ key a = k := by
  simp only [ofKey, List.mem_filter, decide_eq_true_eq]

theorem ofKey_append (k : κ) (l l' : List α) :
    ofKey key k (l ++ l') = ofKey key k l ++ ofKey key k l' := List.filter_append ..

theorem sorted_sortBy (l : List α) : Sorted key (sortBy key l) := by
  have : Std.Total fun a b : α => key a ≤ key b := ⟨fun a b => le_total (key a) (key b)⟩
  have : IsTrans α fun a b => key a ≤ key b := ⟨fun _ _ _ => le_trans⟩
  exact List.pairwise_insertionSort _ l

theorem sortBy_perm (l : List α) : (sortBy key l).Perm l := List.perm_insertionSort _ l

theorem sortBy_of_sorted {l : List α} (h : Sorted key l) : sortBy key l = l :=
  List.Pairwise.insertionSort_eq h

/-- **Stability**: the elements of one key keep their order. -/
theorem filter_sortBy (k : κ) (l : List α) : ofKey key k (sortBy key l) = ofKey key k l := by
  have : Std.Total fun a b : α => key a ≤ key b := ⟨fun a b => le_total (key a) (key b)⟩
  have : IsTrans α fun a b => key a ≤ key b := ⟨fun _ _ _ => le_trans⟩
  have hpair : (ofKey key k l).Pairwise fun a b => key a ≤ key b := by
    refine List.pairwise_of_forall_mem_list fun a ha b hb => ?_
    rw [(mem_ofKey.mp ha).2, (mem_ofKey.mp hb).2]
  have hsub : (ofKey key k l).Sublist (sortBy key l) :=
    List.sublist_insertionSort hpair List.filter_sublist
  have hself : ofKey key k (ofKey key k l) = ofKey key k l := by
    simp only [ofKey, List.filter_filter, Bool.and_self]
  have hsub' : (ofKey key k l).Sublist (ofKey key k (sortBy key l)) := by
    rw [← hself]
    exact hsub.filter _
  exact (hsub'.eq_of_length ((sortBy_perm l).filter _).length_eq.symm).symm

/-- Two sorted lists that agree key by key are the same. -/
theorem eq_of_sorted {l l' : List α} (h : Sorted key l) (h' : Sorted key l')
    (hkeys : ∀ k, ofKey key k l = ofKey key k l') : l = l' := by
  have hmem : ∀ a, a ∈ l ↔ a ∈ l' := by
    intro a
    have hk := congrArg (a ∈ ·) (hkeys (key a))
    simpa only [mem_ofKey, and_true, eq_iff_iff] using hk
  induction l generalizing l' with
  | nil =>
    symm
    rw [List.eq_nil_iff_forall_not_mem]
    exact fun a ha => absurd ((hmem a).mpr ha) List.not_mem_nil
  | cons a t ih =>
    cases l' with
    | nil => exact absurd ((hmem a).mp (List.mem_cons_self ..)) List.not_mem_nil
    | cons b t' =>
      obtain ⟨ha, ht⟩ := List.pairwise_cons.mp h
      obtain ⟨hb, ht'⟩ := List.pairwise_cons.mp h'
      -- both heads are least, so they have the same key and open the same filter
      have hab : key a ≤ key b := by
        rcases List.mem_cons.mp ((hmem b).mpr (List.mem_cons_self ..)) with rfl | hmem'
        · exact le_refl _
        · exact ha b hmem'
      have hba : key b ≤ key a := by
        rcases List.mem_cons.mp ((hmem a).mp (List.mem_cons_self ..)) with rfl | hmem'
        · exact le_refl _
        · exact hb a hmem'
      have hkey : key b = key a := le_antisymm hba hab
      have hhead := hkeys (key a)
      simp only [ofKey, List.filter_cons, hkey, decide_true, if_true, List.cons.injEq] at hhead
      obtain ⟨rfl, _⟩ := hhead
      have htail : ∀ k, ofKey key k t = ofKey key k t' := by
        intro k
        have hk := hkeys k
        simp only [ofKey, List.filter_cons] at hk
        split at hk
        · exact (List.cons.inj hk).2
        · exact hk
      have hmemTail : ∀ x, x ∈ t ↔ x ∈ t' := by
        intro x
        have hx := congrArg (x ∈ ·) (htail (key x))
        simpa only [mem_ofKey, and_true, eq_iff_iff] using hx
      rw [ih ht ht' htail hmemTail]

/-- **What a stable sort forgets**: two lists sort alike exactly when they agree key by key. -/
theorem sortBy_eq_iff {l l' : List α} :
    sortBy key l = sortBy key l' ↔ ∀ k, ofKey key k l = ofKey key k l' := by
  constructor
  · intro h k
    rw [← filter_sortBy k l, h, filter_sortBy]
  · intro h
    refine eq_of_sorted (sorted_sortBy l) (sorted_sortBy l') fun k => ?_
    rw [filter_sortBy, filter_sortBy, h k]

/-- Sorting and filtering may change places. -/
theorem filter_sortBy_comm (p : α → Bool) (l : List α) :
    (sortBy key l).filter p = sortBy key (l.filter p) := by
  refine eq_of_sorted ((sorted_sortBy l).filter p) (sorted_sortBy _) fun k => ?_
  calc ofKey key k ((sortBy key l).filter p)
      = (ofKey key k (sortBy key l)).filter p := List.filter_comm ..
    _ = ofKey key k (l.filter p) := by rw [filter_sortBy, ofKey, ofKey, List.filter_comm]
    _ = ofKey key k (sortBy key (l.filter p)) := (filter_sortBy k _).symm

/-! A list put together from families, where each family has a key of its own. -/

theorem ofKey_map {f : α → α} (hf : ∀ a, key (f a) = key a) (k : κ) (l : List α) :
    ofKey key k (l.map f) = (ofKey key k l).map f := by
  rw [ofKey, List.filter_map, ofKey]
  refine congrArg (List.map f) (List.filter_congr fun a _ => ?_)
  rw [Function.comp_apply, hf]

theorem ofKey_flatMap {ι : Type} (f : ι → List α) (k : κ) (is : List ι) :
    ofKey key k (is.flatMap f) = is.flatMap fun i => ofKey key k (f i) := List.filter_flatMap

theorem ofKey_eq_self {k : κ} {l : List α} (h : ∀ a ∈ l, key a = k) : ofKey key k l = l :=
  List.filter_eq_self.mpr fun a ha => decide_eq_true (h a ha)

theorem ofKey_eq_nil {k : κ} {l : List α} (h : ∀ a ∈ l, key a ≠ k) : ofKey key k l = [] :=
  List.filter_eq_nil_iff.mpr fun a ha => by simpa using h a ha

/-- Lists with the same keys have as many elements of each. -/
theorem length_ofKey {l l' : List α} (h : (l.map key).Perm (l'.map key)) (k : κ) :
    (ofKey key k l).length = (ofKey key k l').length := by
  have hcount : ∀ l : List α,
      (ofKey key k l).length = (l.map key).countP fun j => decide (j = k) := by
    intro l
    rw [List.countP_map, List.countP_eq_length_filter]
    rfl
  rw [hcount, hcount, h.countP_eq]

/-- **Agreement splits** where the first parts have the same keys. -/
theorem ofKey_append_iff {a a' b b' : List α} (h : (a.map key).Perm (a'.map key)) :
    (∀ k, ofKey key k (a ++ b) = ofKey key k (a' ++ b')) ↔
      (∀ k, ofKey key k a = ofKey key k a') ∧ ∀ k, ofKey key k b = ofKey key k b' := by
  simp only [ofKey_append]
  refine ⟨fun heq => ⟨fun k => ?_, fun k => ?_⟩, fun heq k => by rw [heq.1, heq.2]⟩
  · exact (List.append_inj (heq k) (length_ofKey h k)).1
  · exact (List.append_inj (heq k) (length_ofKey h k)).2

/-- **Agreement splits** where the two parts have no key in common. -/
theorem ofKey_append_iff_of_apart {P : κ → Prop} {a a' b b' : List α}
    (ha : ∀ x ∈ a, P (key x)) (ha' : ∀ x ∈ a', P (key x)) (hb : ∀ x ∈ b, ¬ P (key x))
    (hb' : ∀ x ∈ b', ¬ P (key x)) :
    (∀ k, ofKey key k (a ++ b) = ofKey key k (a' ++ b')) ↔
      (∀ k, ofKey key k a = ofKey key k a') ∧ ∀ k, ofKey key k b = ofKey key k b' := by
  simp only [ofKey_append]
  refine ⟨fun heq => ⟨fun k => ?_, fun k => ?_⟩, fun heq k => by rw [heq.1, heq.2]⟩
  · by_cases hk : P k
    · have hnil : ∀ l : List α, (∀ x ∈ l, ¬ P (key x)) → ofKey key k l = [] :=
        fun l hl => ofKey_eq_nil fun x hx hkey => hl x hx (hkey ▸ hk)
      simpa only [hnil b hb, hnil b' hb', List.append_nil] using heq k
    · have hnil : ∀ l : List α, (∀ x ∈ l, P (key x)) → ofKey key k l = [] :=
        fun l hl => ofKey_eq_nil fun x hx hkey => hk (hkey ▸ hl x hx)
      rw [hnil a ha, hnil a' ha']
  · by_cases hk : P k
    · have hnil : ∀ l : List α, (∀ x ∈ l, ¬ P (key x)) → ofKey key k l = [] :=
        fun l hl => ofKey_eq_nil fun x hx hkey => hl x hx (hkey ▸ hk)
      rw [hnil b hb, hnil b' hb']
    · have hnil : ∀ l : List α, (∀ x ∈ l, P (key x)) → ofKey key k l = [] :=
        fun l hl => ofKey_eq_nil fun x hx hkey => hk (hkey ▸ hl x hx)
      simpa only [hnil a ha, hnil a' ha', List.nil_append] using heq k

section Families

variable {ι : Type} {c : ι → κ} (hc : Function.Injective c)

include hc in
/-- The elements with the key of one family are that family. -/
theorem ofKey_family {f : ι → List α} (hf : ∀ i, ∀ a ∈ f i, key a = c i) {is : List ι}
    (hnodup : is.Nodup) {i : ι} (hi : i ∈ is) : ofKey key (c i) (is.flatMap f) = f i := by
  induction is with
  | nil => exact absurd hi List.not_mem_nil
  | cons j is ih =>
    obtain ⟨hj, hnodup⟩ := List.nodup_cons.mp hnodup
    rw [List.flatMap_cons, ofKey_append]
    rcases List.mem_cons.mp hi with rfl | hi
    · have hrest : ofKey key (c i) (is.flatMap f) = [] := by
        refine ofKey_eq_nil fun a ha => ?_
        obtain ⟨j, hjs, haj⟩ := List.mem_flatMap.mp ha
        rw [hf j a haj]
        exact fun heq => hj (hc heq ▸ hjs)
      rw [ofKey_eq_self (hf i), hrest, List.append_nil]
    · have hother : ofKey key (c i) (f j) = [] := by
        refine ofKey_eq_nil fun a ha => ?_
        rw [hf j a ha]
        exact fun heq => hj (hc heq ▸ hi)
      rw [hother, List.nil_append, ih hnodup hi]

include hc in
/-- **Families in different orders** agree key by key exactly when each family does. -/
theorem ofKey_families_iff {f f' : ι → List α} (hf : ∀ i, ∀ a ∈ f i, key a = c i)
    (hf' : ∀ i, ∀ a ∈ f' i, key a = c i) {is is' : List ι} (hperm : is.Perm is')
    (hnodup : is.Nodup) :
    (∀ k, ofKey key k (is.flatMap f) = ofKey key k (is'.flatMap f')) ↔ ∀ i ∈ is, f i = f' i := by
  have hnodup' : is'.Nodup := hperm.nodup_iff.mp hnodup
  constructor
  · intro h i hi
    have hk := h (c i)
    rwa [ofKey_family hc hf hnodup hi, ofKey_family hc hf' hnodup' (hperm.mem_iff.mp hi)] at hk
  · intro h k
    by_cases hk : ∃ i ∈ is, c i = k
    · obtain ⟨i, hi, rfl⟩ := hk
      rw [ofKey_family hc hf hnodup hi, ofKey_family hc hf' hnodup' (hperm.mem_iff.mp hi), h i hi]
    · have hnone : ∀ (g : ι → List α), (∀ i, ∀ a ∈ g i, key a = c i) → ∀ js : List ι,
          (∀ j, j ∈ js → j ∈ is) → ofKey key k (js.flatMap g) = [] := by
        intro g hg js hjs
        refine ofKey_eq_nil fun a ha => ?_
        obtain ⟨j, hj, haj⟩ := List.mem_flatMap.mp ha
        rw [hg j a haj]
        exact fun heq => hk ⟨j, hjs j hj, heq⟩
      rw [hnone f hf is fun _ hj => hj, hnone f' hf' is' fun _ hj => hperm.mem_iff.mpr hj]

end Families

end StableSort
