/-
# Tables keyed by a folded name

An environment is a list of bindings in which a name stands once, where names that fold to the
same key are the same name: folding is the identity on POSIX and lower-casing on Windows.  `put`
replaces the value of the binding a name already has, and leaves that binding its own spelling.

  * `lookup_putAll` -- of a list of puts the last wins, and the others leave the table as it was;
  * `OncePerName.putAll` -- puts keep one binding to a name;
  * `filter_of_lookup` -- so what a lookup finds is the only binding of its name.
-/
import Mathlib.Data.List.Nodup

namespace NameTable

variable {κ ν : Type} [DecidableEq κ] (fold : κ → κ)

/-! ## 1. Operations -/

/-- The value the name is bound to. -/
def lookup (t : List (κ × ν)) (k : κ) : Option ν :=
  (t.find? fun b => decide (fold b.1 = fold k)).map Prod.snd

def put (k : κ) (v : ν) : List (κ × ν) → List (κ × ν)
  | [] => [(k, v)]
  | b :: t => if fold b.1 = fold k then (b.1, v) :: t else b :: put k v t

def putAll (t : List (κ × ν)) (bs : List (κ × ν)) : List (κ × ν) :=
  bs.foldl (fun t b => put fold b.1 b.2 t) t

/-- No two bindings have the same name. -/
def OncePerName (t : List (κ × ν)) : Prop := (t.map fun b => fold b.1).Nodup

/-! ## 2. Lookups -/

variable {fold} {t : List (κ × ν)} {k k' : κ} {v : ν}

@[simp] theorem lookup_nil (k : κ) : lookup fold ([] : List (κ × ν)) k = none := rfl

theorem lookup_cons (b : κ × ν) (t : List (κ × ν)) (k : κ) :
    lookup fold (b :: t) k = if fold b.1 = fold k then some b.2 else lookup fold t k := by
  unfold lookup
  by_cases hk : fold b.1 = fold k <;> simp [hk]

theorem lookup_eq_none : lookup fold t k = none ↔ ∀ b ∈ t, fold b.1 ≠ fold k := by
  unfold lookup
  simp

theorem lookup_append (t t' : List (κ × ν)) (k : κ) :
    lookup fold (t ++ t') k = (lookup fold t k).or (lookup fold t' k) := by
  induction t with
  | nil => rfl
  | cons b t ih =>
    rw [List.cons_append, lookup_cons, lookup_cons, ih]
    split <;> rfl

theorem lookup_put (k : κ) (v : ν) (t : List (κ × ν)) (k' : κ) :
    lookup fold (put fold k v t) k' =
      if fold k = fold k' then some v else lookup fold t k' := by
  induction t with
  | nil => rw [put, lookup_cons]
  | cons b t ih =>
    rw [put]
    by_cases hb : fold b.1 = fold k
    · rw [if_pos hb, lookup_cons, lookup_cons, hb]
      split <;> rfl
    · rw [if_neg hb, lookup_cons, lookup_cons, ih]
      by_cases hk : fold k = fold k'
      · rw [if_pos hk, if_pos hk, if_neg fun h => hb (h.trans hk.symm)]
      · rw [if_neg hk, if_neg hk]

/-- **The last put wins.** -/
theorem lookup_putAll (bs t : List (κ × ν)) (k : κ) :
    lookup fold (putAll fold t bs) k = (lookup fold bs.reverse k).or (lookup fold t k) := by
  induction bs generalizing t with
  | nil => rfl
  | cons b bs ih =>
    rw [putAll, List.foldl_cons, ← putAll, ih, lookup_put, List.reverse_cons, lookup_append,
      lookup_cons, lookup_nil]
    cases lookup fold bs.reverse k with
    | some w => rfl
    | none => split <;> rfl

/-- Bindings of other keys may stand for bindings of names, where no two of those are one name. -/
theorem lookup_map {ι : Type} [DecidableEq ι] {name : ι → κ}
    (hname : ∀ i j, fold (name i) = fold (name j) ↔ i = j) (bs : List (ι × ν)) (i : ι) :
    lookup fold (bs.map fun b => (name b.1, b.2)) (name i) = lookup (fun i => i) bs i := by
  induction bs with
  | nil => rfl
  | cons b bs ih =>
    rw [List.map_cons, lookup_cons, lookup_cons, ih]
    simp only [hname]

/-! ## 3. One binding to a name -/

theorem mem_fold_put {key : κ} :
    key ∈ (put fold k v t).map (fun b => fold b.1) ↔
      key = fold k ∨ key ∈ t.map fun b => fold b.1 := by
  induction t with
  | nil => simp [put]
  | cons b t ih =>
    rw [put]
    split
    · rename_i hb
      rw [List.map_cons, List.mem_cons, List.map_cons, List.mem_cons, hb]
      tauto
    · rw [List.map_cons, List.mem_cons, ih, List.map_cons, List.mem_cons]
      tauto

theorem OncePerName.put (h : OncePerName fold t) (k : κ) (v : ν) :
    OncePerName fold (put fold k v t) := by
  induction t with
  | nil => exact List.nodup_singleton _
  | cons b t ih =>
    obtain ⟨hb, ht⟩ := List.nodup_cons.mp h
    rw [NameTable.put]
    split
    · exact h
    · rename_i hne
      refine List.nodup_cons.mpr ⟨fun hmem => ?_, ih ht⟩
      rcases mem_fold_put.mp hmem with he | hold
      · exact hne he
      · exact hb hold

omit [DecidableEq κ] in
theorem oncePerName_nil : OncePerName fold ([] : List (κ × ν)) := List.nodup_nil

theorem OncePerName.putAll (bs : List (κ × ν)) :
    ∀ {t : List (κ × ν)}, OncePerName fold t → OncePerName fold (putAll fold t bs) := by
  induction bs with
  | nil => exact fun h => h
  | cons b bs ih => exact fun h => ih (h.put b.1 b.2)

/-- **The binding a lookup finds is the only one of its name.** -/
theorem filter_of_lookup (h : OncePerName fold t) (hv : lookup fold t k = some v) :
    ∃ name, fold name = fold k ∧ t.filter (fun b => fold b.1 = fold k) = [(name, v)] := by
  induction t with
  | nil => exact absurd hv (by simp)
  | cons b t ih =>
    obtain ⟨hb, ht⟩ := List.nodup_cons.mp h
    rw [lookup_cons] at hv
    by_cases hk : fold b.1 = fold k
    · rw [if_pos hk] at hv
      refine ⟨b.1, hk, ?_⟩
      have hrest : t.filter (fun b => fold b.1 = fold k) = [] := by
        refine List.filter_eq_nil_iff.mpr fun c hc he => hb ?_
        have hname : fold c.1 = fold b.1 := (of_decide_eq_true he).trans hk.symm
        exact List.mem_map.mpr ⟨c, hc, hname⟩
      rw [List.filter_cons_of_pos (by simpa using hk), hrest, ← Option.some.inj hv]
    · rw [if_neg hk] at hv
      rw [List.filter_cons_of_neg (by simpa using hk)]
      exact ih ht hv

theorem lookup_of_mem (h : OncePerName fold t) {b : κ × ν} (hb : b ∈ t) :
    lookup fold t b.1 = some b.2 := by
  cases hl : lookup fold t b.1 with
  | none => exact absurd rfl (lookup_eq_none.mp hl b hb)
  | some w =>
    obtain ⟨name, -, hfilter⟩ := filter_of_lookup h hl
    have hin : b ∈ t.filter fun c => fold c.1 = fold b.1 :=
      List.mem_filter.mpr ⟨hb, decide_eq_true rfl⟩
    rw [hfilter, List.mem_singleton] at hin
    rw [hin]

/-- Where every name is its own key, a table is what its lookups say. -/
theorem mem_iff_lookup (h : OncePerName (fun k : κ => k) t) :
    (k, v) ∈ t ↔ lookup (fun k => k) t k = some v := by
  constructor
  · exact fun hmem => lookup_of_mem h hmem
  · intro hl
    obtain ⟨name, hname, hfilter⟩ := filter_of_lookup h hl
    have hin : (name, v) ∈ t.filter fun b => b.1 = k := hfilter ▸ List.mem_singleton_self _
    rw [← hname]
    exact (List.mem_filter.mp hin).1

/-- Two such tables hold the same bindings exactly when every name looks up the same. -/
theorem same_bindings_iff {t t' : List (κ × ν)} (h : OncePerName (fun k : κ => k) t)
    (h' : OncePerName (fun k : κ => k) t') :
    (∀ b, b ∈ t ↔ b ∈ t') ↔ ∀ k, lookup (fun k => k) t k = lookup (fun k => k) t' k := by
  constructor
  · intro hsame k
    refine Option.ext fun v => ?_
    rw [← mem_iff_lookup h, ← mem_iff_lookup h']
    exact hsame (k, v)
  · intro hlook b
    rw [show b = (b.1, b.2) from rfl, mem_iff_lookup h, mem_iff_lookup h', hlook]

end NameTable
