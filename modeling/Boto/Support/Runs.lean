import Mathlib.Data.List.Basic

/-!
# Runs of a transition system

A system takes a step for an action, unless the action is not possible.  A guard singles
out the actions that are considered in a state, and what the guarded steps keep holds
after every guarded run.
-/

namespace Runs

variable {σ α : Type} (step : σ → α → Option σ) (guard : σ → α → Prop)

/-- The state after some actions. -/
def run (s : σ) : List α → Option σ
  | [] => some s
  | action :: actions => (step s action).bind fun s' => run s' actions

/-- Every action is taken in a state in which it is considered. -/
def Guarded (s : σ) : List α → Prop
  | [] => True
  | action :: actions => guard s action ∧ ∀ s', step s action = some s' → Guarded s' actions

instance decidableGuarded [∀ s action, Decidable (guard s action)] :
    ∀ (actions : List α) (s : σ), Decidable (Guarded step guard s actions)
  | [], _ => isTrue trivial
  | action :: actions, s =>
      match hstep : step s action with
      | none => decidable_of_iff (guard s action) (by simp [Guarded, hstep])
      | some s' =>
          have := decidableGuarded actions s'
          decidable_of_iff (guard s action ∧ Guarded step guard s' actions)
            (by simp [Guarded, hstep])

variable {step guard} {s s' : σ} {actions later : List α}

theorem run_append :
    run step s (actions ++ later) = (run step s actions).bind fun s' => run step s' later := by
  induction actions generalizing s with
  | nil => rfl
  | cons action actions ih =>
      rw [List.cons_append, run, run, Option.bind_assoc]
      exact congrArg _ (funext fun s' => ih)

theorem Guarded.of_append (hguarded : Guarded step guard s (actions ++ later))
    (hrun : run step s actions = some s') : Guarded step guard s' later := by
  induction actions generalizing s with
  | nil =>
      cases hrun
      exact hguarded
  | cons action actions ih =>
      obtain ⟨middle, hstep, hrest⟩ := Option.bind_eq_some_iff.mp hrun
      exact ih (hguarded.2 middle hstep) hrest

theorem Guarded.append_left (hguarded : Guarded step guard s (actions ++ later)) :
    Guarded step guard s actions := by
  induction actions generalizing s with
  | nil => exact trivial
  | cons action actions ih =>
      exact ⟨hguarded.1, fun s' hstep => ih (hguarded.2 s' hstep)⟩

/-- What holds at first and is kept by every guarded step holds after a guarded run. -/
theorem invariant_of_step {invariant : σ → Prop}
    (hstep : ∀ s action s', invariant s → guard s action → step s action = some s' →
      invariant s')
    (hinvariant : invariant s) (hguarded : Guarded step guard s actions)
    (hrun : run step s actions = some s') : invariant s' := by
  induction actions generalizing s with
  | nil =>
      cases hrun
      exact hinvariant
  | cons action actions ih =>
      obtain ⟨middle, htaken, hrest⟩ := Option.bind_eq_some_iff.mp hrun
      exact ih (hstep s action middle hinvariant hguarded.1 htaken)
        (hguarded.2 middle htaken) hrest

/-- Where every guarded step is possible, so is a guarded run. -/
theorem exists_run_of_step {invariant : σ → Prop}
    (hstep : ∀ s action, invariant s → guard s action →
      ∃ s', step s action = some s' ∧ invariant s')
    (hinvariant : invariant s) (hguarded : Guarded step guard s actions) :
    ∃ s', run step s actions = some s' ∧ invariant s' := by
  induction actions generalizing s with
  | nil => exact ⟨s, rfl, hinvariant⟩
  | cons action actions ih =>
      obtain ⟨middle, htaken, hmiddle⟩ := hstep s action hinvariant hguarded.1
      rw [run, htaken]
      exact ih hmiddle (hguarded.2 middle htaken)

/-- A preorder that every guarded step from an invariant state follows is followed by a
guarded run. -/
theorem relation_of_step {invariant : σ → Prop} {r : σ → σ → Prop} (hrefl : ∀ s, r s s)
    (htrans : ∀ a b c, r a b → r b c → r a c)
    (hstep : ∀ s action s', invariant s → guard s action → step s action = some s' →
      invariant s' ∧ r s s')
    (hinvariant : invariant s) (hguarded : Guarded step guard s actions)
    (hrun : run step s actions = some s') : r s s' := by
  induction actions generalizing s with
  | nil =>
      cases hrun
      exact hrefl _
  | cons action actions ih =>
      obtain ⟨middle, htaken, hrest⟩ := Option.bind_eq_some_iff.mp hrun
      obtain ⟨hnext, hrelated⟩ := hstep s action middle hinvariant hguarded.1 htaken
      exact htrans _ _ _ hrelated (ih hnext (hguarded.2 middle htaken) hrest)

end Runs
