/-
# Lists made of blocks, in any order

A list that is put together from blocks depends on the order the blocks come in.  Whether some
function of it does is a question about two blocks at a time: a permutation is a chain of swaps
of neighbours, and what two blocks do to each other they do anywhere in the list.

The four rules below settle the question for the functions a pass over a list computes: the list
itself, the first entry of each key, its last element and its first.  Each is an equivalence, so a
pair of blocks that does not commute is a pair of orders that differ.
-/
import Mathlib.Data.List.Basic
import Mathlib.Data.List.Dedup
import IoMon.Lib.Keyed

namespace Reorder

variable {α β γ κ : Type}

/-! ## 1. Two blocks at a time -/

/-- `a` and `b` stand at two places of the list. -/
def TwoOf (l : List α) (a b : α) : Prop := ∃ rest, (a :: b :: rest).Perm l

theorem TwoOf.of_perm {l l' : List α} {a b : α} (h : TwoOf l a b) (hl : l.Perm l') :
    TwoOf l' a b := by
  obtain ⟨rest, hrest⟩ := h
  exact ⟨rest, hrest.trans hl⟩

theorem twoOf_middle (p s : List α) (a b : α) : TwoOf (p ++ a :: b :: s) a b := by
  have hb : (a :: b :: (p ++ s)).Perm (a :: (p ++ b :: s)) := List.perm_middle.symm.cons a
  exact ⟨p ++ s, hb.trans List.perm_middle.symm⟩

/-- **Swaps of neighbours are enough.** -/
theorem eq_of_swaps {G : List α → γ} {l : List α}
    (hswap : ∀ p a b s, TwoOf l a b → G (p ++ a :: b :: s) = G (p ++ b :: a :: s))
    {l' : List α} (h : l'.Perm l) : G l' = G l := by
  have hrun : ∀ {l₁ l₂ : List α}, l₁.Perm l₂ → ∀ p, (p ++ l₁).Perm l →
      G (p ++ l₁) = G (p ++ l₂) := by
    intro l₁ l₂ hperm
    induction hperm with
    | nil => exact fun p _ => rfl
    | cons x _ ih =>
      intro p hp
      have := ih (p ++ [x]) (by simpa using hp)
      simpa using this
    | swap x y s =>
      intro p hp
      exact hswap p y x s ((twoOf_middle p s y x).of_perm hp)
    | trans h₁ _ ih₁ ih₂ =>
      intro p hp
      exact (ih₁ p hp).trans (ih₂ p ((h₁.symm.append_left p).trans hp))
  exact hrun h [] h

/-! ## 2. The list itself -/

/-- **The concatenation** is the same in every order exactly when any two blocks commute. -/
theorem flatMap_perm_iff {g : α → List β} {l : List α} {t : List β} :
    (∀ l' : List α, l'.Perm l → l'.flatMap g ++ t = l.flatMap g ++ t) ↔
      ∀ a b, TwoOf l a b → g a ++ g b = g b ++ g a := by
  constructor
  · rintro h a b ⟨rest, hrest⟩
    have hab := h (a :: b :: rest) hrest
    have hba := h (b :: a :: rest) ((List.Perm.swap a b rest).trans hrest)
    rw [← hba] at hab
    simp only [List.flatMap_cons, List.append_assoc] at hab
    rw [← List.append_assoc, ← List.append_assoc (g b)] at hab
    exact List.append_cancel_right hab
  · intro h l' hl'
    refine eq_of_swaps (G := fun l => l.flatMap g ++ t) (fun p a b s htwo => ?_) hl'
    simp only [List.flatMap_append, List.flatMap_cons, List.append_assoc]
    rw [← List.append_assoc (g a), h a b htwo, List.append_assoc]

/-! ## 3. The first entry of each key -/

section FirstPerKey

open Keyed

variable [DecidableEq κ]

/-- A later block adds the keys the earlier ones do not have. -/
theorem firstPerKey_append (ps qs : List (κ × β)) :
    firstPerKey (ps ++ qs) =
      firstPerKey ps ++ (firstPerKey qs).filter fun q => q.1 ∉ ps.map (·.1) := by
  induction ps with
  | nil => simp [firstPerKey]
  | cons p ps ih =>
    rw [List.cons_append, firstPerKey, firstPerKey, ih, List.filter_append, List.filter_filter,
      List.cons_append]
    refine congrArg (fun rest => p :: (_ ++ rest)) (List.filter_congr fun q _ => ?_)
    rw [Bool.eq_iff_iff]
    simp only [Bool.and_eq_true, decide_eq_true_eq, List.map_cons, List.mem_cons, not_or, ne_eq]

theorem mem_map_fst_firstPerKey {ps : List (κ × β)} {k : κ} :
    k ∈ (firstPerKey ps).map (·.1) ↔ k ∈ ps.map (·.1) := by
  simp only [List.mem_map]
  constructor
  · rintro ⟨p, hp, rfl⟩
    exact ⟨p, mem_of_mem_firstPerKey hp, rfl⟩
  · rintro ⟨p, hp, rfl⟩
    exact exists_mem_firstPerKey hp

theorem nodup_firstPerKey (ps : List (κ × β)) : ((firstPerKey ps).map (·.1)).Nodup := by
  induction ps with
  | nil => exact List.nodup_nil
  | cons p ps ih =>
    rw [firstPerKey, List.map_cons, List.nodup_cons]
    refine ⟨?_, ih.sublist (List.filter_sublist.map _)⟩
    simp only [List.mem_map, List.mem_filter, decide_eq_true_eq, not_exists, not_and]
    exact fun q hq heq => hq.2 heq

/-- Where no key repeats there is nothing to drop. -/
theorem firstPerKey_of_nodup {ps : List (κ × β)} (h : (ps.map (·.1)).Nodup) :
    firstPerKey ps = ps := by
  induction ps with
  | nil => rfl
  | cons p ps ih =>
    rw [List.map_cons, List.nodup_cons] at h
    rw [firstPerKey, ih h.2, List.filter_eq_self.mpr]
    intro q hq
    rw [decide_eq_true_iff]
    exact fun heq => h.1 (heq ▸ List.mem_map_of_mem hq)

/-- One entry for each key, whatever the order. -/
theorem length_firstPerKey_perm {ps qs : List (κ × β)} (h : ps.Perm qs) :
    (firstPerKey ps).length = (firstPerKey qs).length := by
  have hkeys : ((firstPerKey ps).map (·.1)).Perm ((firstPerKey qs).map (·.1)) := by
    refine (List.perm_ext_iff_of_nodup (nodup_firstPerKey ps) (nodup_firstPerKey qs)).mpr
      fun k => ?_
    rw [mem_map_fst_firstPerKey, mem_map_fst_firstPerKey]
    exact (h.map _).mem_iff
  simpa only [List.length_map] using hkeys.length_eq

/-- What the key of an entry determines is found the same number of times in every order. -/
theorem map_firstPerKey_perm {δ : Type} {f : β → δ} {ps qs : List (κ × β)} (h : ps.Perm qs)
    (hf : ∀ p ∈ ps, ∀ q ∈ ps, p.1 = q.1 → f p.2 = f q.2) :
    ((firstPerKey ps).map fun p => f p.2).Perm ((firstPerKey qs).map fun p => f p.2) := by
  have hkeys : ((firstPerKey ps).map (·.1)).Perm ((firstPerKey qs).map (·.1)) := by
    refine (List.perm_ext_iff_of_nodup (nodup_firstPerKey ps) (nodup_firstPerKey qs)).mpr
      fun k => ?_
    rw [mem_map_fst_firstPerKey, mem_map_fst_firstPerKey]
    exact (h.map _).mem_iff
  -- read the value off the key, through any entry that has it
  let value : κ → Option δ := fun k => (ps.find? fun p => p.1 = k).map fun p => f p.2
  have hvalue : ∀ p ∈ ps, value p.1 = some (f p.2) := by
    intro p hp
    cases hfind : ps.find? fun q => decide (q.1 = p.1) with
    | none =>
      exact absurd (decide_eq_true rfl) (List.find?_eq_none.mp hfind p hp)
    | some q =>
      have hfound := List.find?_some hfind
      have hkey : q.1 = p.1 := of_decide_eq_true hfound
      rw [show value p.1 = some (f q.2) by simp only [value, hfind, Option.map_some],
        hf q (List.mem_of_find?_eq_some hfind) p hp hkey]
  have hread : ∀ l : List (κ × β), (∀ p ∈ l, p ∈ ps) →
      (l.map fun p => f p.2).map some = (l.map (·.1)).map value := by
    intro l hl
    rw [List.map_map, List.map_map]
    exact List.map_congr_left fun p hp => (hvalue p (hl p hp)).symm
  have hsome : (((firstPerKey ps).map fun p => f p.2).map some).Perm
      (((firstPerKey qs).map fun p => f p.2).map some) := by
    rw [hread _ fun p hp => mem_of_mem_firstPerKey hp,
      hread _ fun p hp => h.mem_iff.mpr (mem_of_mem_firstPerKey hp)]
    exact hkeys.map _
  have hread' : ∀ l : List δ, (l.map some).filterMap id = l := fun l => by
    rw [List.filterMap_map, Function.id_comp, List.filterMap_some]
  have hperm := hsome.filterMap id
  rwa [hread', hread'] at hperm

/-- **First entries per key** are the same in every order exactly when any two blocks commute for
them. -/
theorem firstPerKey_perm_iff {g : α → List (κ × β)} {l : List α} {t : List (κ × β)} :
    (∀ l' : List α, l'.Perm l → firstPerKey (l'.flatMap g ++ t) = firstPerKey (l.flatMap g ++ t)) ↔
      ∀ a b, TwoOf l a b → firstPerKey (g a ++ g b) = firstPerKey (g b ++ g a) := by
  constructor
  · rintro h a b ⟨rest, hrest⟩
    have hab := h (a :: b :: rest) hrest
    have hba := h (b :: a :: rest) ((List.Perm.swap a b rest).trans hrest)
    rw [← hba] at hab
    simp only [List.flatMap_cons, List.append_assoc] at hab
    rw [← List.append_assoc, ← List.append_assoc (g b), firstPerKey_append,
      firstPerKey_append (g b ++ g a)] at hab
    exact (List.append_inj hab (length_firstPerKey_perm List.perm_append_comm)).1
  · intro h l' hl'
    refine eq_of_swaps (G := fun l => firstPerKey (l.flatMap g ++ t)) (fun p a b s htwo => ?_) hl'
    have hkeys : ∀ q : κ × β, q.1 ∉ (g a ++ g b).map (·.1) ↔ q.1 ∉ (g b ++ g a).map (·.1) := by
      intro q
      have hcomm : (g a ++ g b).Perm (g b ++ g a) := List.perm_append_comm
      rw [(hcomm.map (·.1)).mem_iff]
    simp only [List.flatMap_append, List.flatMap_cons, List.append_assoc]
    rw [firstPerKey_append, firstPerKey_append (p.flatMap g), ← List.append_assoc,
      ← List.append_assoc (g b), firstPerKey_append (g a ++ g b), firstPerKey_append (g b ++ g a),
      h a b htwo]
    simp only [hkeys]

end FirstPerKey

/-! ## 4. The last element and the first -/

theorem or_comm_of_agree {o o' : Option β} (h : ∀ x ∈ o, ∀ y ∈ o', x = y) : o.or o' = o'.or o := by
  cases o with
  | none => cases o' <;> rfl
  | some x =>
    cases o' with
    | none => rfl
    | some y => rw [h x rfl y rfl]

/-- **The last element** is the same in every order exactly when the blocks that have one agree on
it, unless something follows them. -/
theorem getLast_perm_iff {g : α → List β} {l : List α} {t : List β} {d : β} :
    (∀ l' : List α, l'.Perm l →
        (l'.flatMap g ++ t).getLast?.getD d = (l.flatMap g ++ t).getLast?.getD d) ↔
      (t = [] → ∀ a b, TwoOf l a b → ∀ x ∈ (g a).getLast?, ∀ y ∈ (g b).getLast?, x = y) := by
  constructor
  · rintro h rfl a b ⟨rest, hrest⟩ x hx y hy
    have hlast : ∀ (p : List α) (c : α) (z : β), z ∈ (g c).getLast? →
        ((p ++ [c]).flatMap g ++ []).getLast?.getD d = z := by
      intro p c z hz
      rw [List.append_nil, List.flatMap_append, List.flatMap_singleton, List.getLast?_append,
        Option.mem_def.mp hz]
      rfl
    have hba : (rest ++ [b] ++ [a]).Perm l := by
      refine List.Perm.trans ?_ hrest
      have : (rest ++ ([b] ++ [a])).Perm ([b] ++ [a] ++ rest) := List.perm_append_comm
      rw [List.append_assoc]
      exact this.trans (List.Perm.swap a b rest)
    have hab : (rest ++ [a] ++ [b]).Perm l := by
      refine List.Perm.trans ?_ hrest
      have : (rest ++ ([a] ++ [b])).Perm ([a] ++ [b] ++ rest) := List.perm_append_comm
      rw [List.append_assoc]
      exact this
    calc x = _ := (hlast (rest ++ [b]) a x hx).symm
      _ = _ := h _ hba
      _ = _ := (h _ hab).symm
      _ = y := hlast (rest ++ [a]) b y hy
  · intro h l' hl'
    refine eq_of_swaps (G := fun l => (l.flatMap g ++ t).getLast?.getD d) (fun p a b s htwo => ?_)
      hl'
    simp only [List.flatMap_append, List.flatMap_cons, List.append_assoc, List.getLast?_append]
    cases ht : t.getLast? with
    | some z => rfl
    | none =>
      have hagree := h (List.getLast?_eq_none_iff.mp ht) a b htwo
      have hcomm : ∀ o : Option β, (o.or (g b).getLast?).or (g a).getLast? =
          (o.or (g a).getLast?).or (g b).getLast? := by
        intro o
        rw [Option.or_assoc, Option.or_assoc, or_comm_of_agree hagree]
      rw [hcomm]

/-- **What is read off the first element** is the same in every order exactly when it is the same
for any two blocks that have one. -/
theorem head_perm_iff {g : α → List β} {l : List α} {t : List β} {d : β} {F : β → γ} :
    (∀ l' : List α, l'.Perm l →
        F ((l'.flatMap g ++ t).head?.getD d) = F ((l.flatMap g ++ t).head?.getD d)) ↔
      ∀ a b, TwoOf l a b → ∀ x ∈ (g a).head?, ∀ y ∈ (g b).head?, F x = F y := by
  constructor
  · rintro h a b ⟨rest, hrest⟩ x hx y hy
    have hfirst : ∀ (c : α) (s : List α) (z : β), z ∈ (g c).head? →
        ((c :: s).flatMap g ++ t).head?.getD d = z := by
      intro c s z hz
      rw [List.flatMap_cons, List.append_assoc, List.head?_append, Option.mem_def.mp hz]
      rfl
    have hab := h (a :: b :: rest) hrest
    have hba := h (b :: a :: rest) ((List.Perm.swap a b rest).trans hrest)
    rw [hfirst a _ x hx] at hab
    rw [hfirst b _ y hy] at hba
    exact hab.trans hba.symm
  · intro h l' hl'
    refine eq_of_swaps (G := fun l => F ((l.flatMap g ++ t).head?.getD d)) (fun p a b s htwo => ?_)
      hl'
    simp only [List.flatMap_append, List.flatMap_cons, List.append_assoc, List.head?_append]
    cases (p.flatMap g).head? with
    | some z => rfl
    | none =>
      have hagree := h a b htwo
      cases ha : (g a).head? with
      | none => rfl
      | some x =>
        cases hb : (g b).head? with
        | none => rfl
        | some y => exact hagree x ha y hb

/-! ## 5. Reading a list off its image -/

/-- A map that tells the elements of the two lists apart tells the lists apart. -/
theorem eq_of_map_eq {f : β → γ} {l l' : List β}
    (hf : ∀ x ∈ l, ∀ y ∈ l', f x = f y → x = y) (h : l.map f = l'.map f) : l = l' := by
  induction l generalizing l' with
  | nil => exact (List.map_eq_nil_iff.mp h.symm).symm
  | cons x l ih =>
    cases l' with
    | nil => exact absurd h (by simp)
    | cons y l' =>
      rw [List.map_cons, List.map_cons, List.cons.injEq] at h
      have hxy := hf x (List.mem_cons_self ..) y (List.mem_cons_self ..) h.1
      have hl := ih (fun a ha b hb => hf a (List.mem_cons_of_mem _ ha) b
        (List.mem_cons_of_mem _ hb)) h.2
      rw [hxy, hl]

end Reorder
