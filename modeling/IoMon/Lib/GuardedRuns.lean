/-
# Runs of a step that may refuse

A machine that takes an action only in a state that allows it has a partial step, and a run is a
list of actions each of which was allowed.  An invariant is carried from the first state to the last
by its step alone; where a step keeps it only under a condition, the run has to meet that condition
at each of its steps.
-/
import Mathlib.Data.List.Basic

namespace GuardedRuns

variable {σ α : Type*}

def run (step : σ → α → Option σ) (s : σ) (actions : List α) : Option σ :=
  actions.foldlM step s

/-- Each action of the run meets `Q` in the state it is taken in. -/
def Meets (step : σ → α → Option σ) (Q : σ → α → Prop) : σ → List α → Prop
  | _, [] => True
  | s, a :: rest => Q s a ∧ ∀ s', step s a = some s' → Meets step Q s' rest

variable {step : σ → α → Option σ} {P : σ → Prop} {Q : σ → α → Prop}

@[simp] theorem run_nil (s : σ) : run step s [] = some s := rfl

theorem run_cons {s s' : σ} {a : α} {rest : List α} :
    run step s (a :: rest) = some s' ↔ ∃ t, step s a = some t ∧ run step t rest = some s' := by
  rw [run, List.foldlM_cons]
  exact Option.bind_eq_some_iff

theorem run_append {s s' : σ} {front back : List α} :
    run step s (front ++ back) = some s' ↔
      ∃ t, run step s front = some t ∧ run step t back = some s' := by
  rw [run, List.foldlM_append]
  exact Option.bind_eq_some_iff

/-- A condition on the actions alone. -/
theorem Meets.of_forall : ∀ {actions : List α} (s : σ), (∀ a ∈ actions, ∀ s, Q s a) →
    Meets step Q s actions
  | [], _, _ => trivial
  | a :: _, s, h => ⟨h a List.mem_cons_self s,
      fun s' _ => Meets.of_forall s' fun b hb => h b (List.mem_cons_of_mem a hb)⟩

theorem Meets.true (actions : List α) (s : σ) : Meets step (fun _ _ => True) s actions :=
  Meets.of_forall s fun _ _ _ => trivial

theorem Meets.split {front back : List α} {s t : σ} (h : Meets step Q s (front ++ back))
    (hrun : run step s front = some t) : Meets step Q s front ∧ Meets step Q t back := by
  induction front generalizing s with
  | nil =>
    rw [run_nil, Option.some.injEq] at hrun
    exact ⟨trivial, hrun ▸ h⟩
  | cons a front ih =>
    obtain ⟨u, hu, hrest⟩ := run_cons.mp hrun
    obtain ⟨-, hback⟩ := ih (h.2 u hu) hrest
    refine ⟨⟨h.1, fun v hv => ?_⟩, hback⟩
    obtain rfl := Option.some.inj (hu.symm.trans hv)
    exact (ih (h.2 u hu) hrest).1

/-- **The run rule**: what every step keeps where `Q` is met, a run that meets `Q` keeps. -/
theorem invariant_of_meets (hstep : ∀ {s a s'}, P s → Q s a → step s a = some s' → P s') :
    ∀ (actions : List α) {s s' : σ}, P s → Meets step Q s actions →
      run step s actions = some s' → P s'
  | [], s, s', hs, _, hrun => by
    rw [run_nil, Option.some.injEq] at hrun
    exact hrun ▸ hs
  | a :: rest, s, s', hs, hmeets, hrun => by
    obtain ⟨t, ht, hrest⟩ := run_cons.mp hrun
    exact invariant_of_meets hstep rest (hstep hs hmeets.1 ht) (hmeets.2 t ht) hrest

/-- The run rule for an invariant that every step keeps. -/
theorem invariant (hstep : ∀ {s a s'}, P s → step s a = some s' → P s') (actions : List α)
    {s s' : σ} (hs : P s) (hrun : run step s actions = some s') : P s' :=
  invariant_of_meets (fun h _ => hstep h) actions hs (Meets.true actions s) hrun

/-- Two steps that agree where `P` holds and `Q` is met have the same runs. -/
theorem run_congr {step' : σ → α → Option σ}
    (hstep : ∀ {s a s'}, P s → Q s a → step s a = some s' → P s')
    (hagree : ∀ {s a}, P s → Q s a → step' s a = step s a) :
    ∀ (actions : List α) {s : σ}, P s → Meets step Q s actions →
      run step' s actions = run step s actions
  | [], _, _, _ => rfl
  | a :: rest, s, hs, hmeets => by
    rw [run, run, List.foldlM_cons, List.foldlM_cons, hagree hs hmeets.1]
    cases hnext : step s a with
    | none => rfl
    | some t => exact run_congr hstep hagree rest (hstep hs hmeets.1 hnext) (hmeets.2 t hnext)

end GuardedRuns
