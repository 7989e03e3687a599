import Mathlib.Data.List.Basic

/-!
# Reporting every few values

A counter is raised with each value, and when it reaches a number the value is reported and
the counter starts again.
-/

namespace Reports

variable {α : Type}

/-- The counter and what was reported, after a value. -/
def tick (every : ℕ) (s : ℕ × List α) (value : α) : ℕ × List α :=
  if s.1 + 1 = every then (0, s.2 ++ [value]) else (s.1 + 1, s.2)

/-- The counter and what is reported of some values. -/
def run (every : ℕ) (s : ℕ × List α) (values : List α) : ℕ × List α :=
  values.foldl (tick every) s

variable {every i : ℕ} {reported values : List α} {value : α}

theorem run_cons (s : ℕ × List α) :
    run every s (value :: values) = run every (tick every s value) values := rfl

/-- Nothing is ever reported for the number zero. -/
theorem run_zero : run 0 (i, reported) values = (i + values.length, reported) := by
  induction values generalizing i with
  | nil => rfl
  | cons value values ih =>
      rw [run_cons, tick, if_neg (by omega), ih, List.length_cons]
      exact Prod.ext (by dsimp only; omega) rfl

/-- The counter is what is left of a division, and the reports are counted by it. -/
theorem run_spec (hevery : 0 < every) (hi : i < every) :
    (run every (i, reported) values).1 = (i + values.length) % every ∧
      (run every (i, reported) values).2.length =
        reported.length + (i + values.length) / every := by
  induction values generalizing i reported with
  | nil =>
      rw [List.length_nil, Nat.add_zero, Nat.mod_eq_of_lt hi, Nat.div_eq_of_lt hi]
      exact ⟨rfl, rfl⟩
  | cons value values ih =>
      rw [run_cons, tick, List.length_cons]
      split
      · rename_i hreached
        dsimp only at hreached
        obtain ⟨hcounter, hlength⟩ := @ih 0 (reported ++ [value]) hevery
        have hsum : i + (values.length + 1) = values.length + every := by omega
        rw [hcounter, hlength, Nat.zero_add, hsum, Nat.add_mod_right,
          Nat.add_div_right _ hevery, List.length_append, List.length_singleton]
        exact ⟨rfl, by omega⟩
      · rename_i hreached
        dsimp only at hreached
        obtain ⟨hcounter, hlength⟩ := @ih (i + 1) reported (show i + 1 < every by omega)
        have hsum : i + (values.length + 1) = i + 1 + values.length := by omega
        rw [hcounter, hlength, hsum]
        exact ⟨rfl, rfl⟩

/-- What is reported are some of the values, in their order. -/
theorem run_sublist : ∃ new, (run every (i, reported) values).2 = reported ++ new ∧
    new.Sublist values := by
  induction values generalizing i reported with
  | nil => exact ⟨[], (List.append_nil _).symm, .refl _⟩
  | cons value values ih =>
      rw [run_cons, tick]
      split
      · obtain ⟨new, heq, hsub⟩ := @ih 0 (reported ++ [value])
        exact ⟨value :: new, by rw [heq, List.append_assoc, List.singleton_append],
          hsub.cons_cons value⟩
      · obtain ⟨new, heq, hsub⟩ := @ih (i + 1) reported
        exact ⟨new, heq, hsub.cons value⟩

theorem run_append (s : ℕ × List α) (more : List α) :
    run every s (values ++ more) = run every (run every s values) more :=
  List.foldl_append

/-- The last value is reported when the counter has just started again. -/
theorem getLast?_run (hevery : 0 < every) (hi : i < every) (hne : values ≠ [])
    (hcounter : (i + values.length) % every = 0) :
    (run every (i, reported) values).2.getLast? = values.getLast? := by
  obtain ⟨front, value, rfl⟩ := List.eq_nil_or_concat values |>.resolve_left hne
  rw [List.concat_eq_append] at hcounter ⊢
  rw [run_append]
  have hfront := (@run_spec _ every i reported front hevery hi).1
  generalize run every (i, reported) front = s at hfront ⊢
  have hreached : s.1 + 1 = every := by
    rw [List.length_append, List.length_singleton, ← Nat.add_assoc] at hcounter
    have hmod := Nat.add_mod (i + front.length) 1 every
    rw [hcounter, ← hfront] at hmod
    have hlt : s.1 < every := hfront ▸ Nat.mod_lt _ hevery
    by_contra hne
    by_cases hone : every = 1
    · omega
    · rw [Nat.mod_eq_of_lt (show 1 < every by omega),
        Nat.mod_eq_of_lt (show s.1 + 1 < every by omega)] at hmod
      omega
  rw [run_cons, tick, if_pos hreached]
  exact (List.getLast?_append_of_ne_nil _ (List.cons_ne_nil _ _)).trans
    (List.getLast?_append_of_ne_nil _ (List.cons_ne_nil _ _)).symm

end Reports
