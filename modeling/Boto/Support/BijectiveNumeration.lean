import Mathlib.Data.List.Induction
import Mathlib.Data.List.Shortlex
import Mathlib.Data.Nat.Notation
import Mathlib.Tactic.Common
import Mathlib.Tactic.Ring

/-!
# Bijective numeration

With digits that count from one, every number is written by exactly one string, zero by the
empty one, and the numbers are in the order of length and then of the digits.
-/

namespace BijectiveNumeration

variable {k : ℕ} {ds es : List (Fin k)} {d : Fin k}

/-- The number that a string of digits is for, where the digit `d` counts `d + 1`. -/
def number (ds : List (Fin k)) : ℕ :=
  ds.foldl (fun n (d : Fin k) => n * k + (d.val + 1)) 0

@[simp] theorem number_nil : number ([] : List (Fin k)) = 0 := rfl

@[simp] theorem number_concat (ds : List (Fin k)) (d : Fin k) :
    number (ds ++ [d]) = number ds * k + (d + 1) := by
  rw [number, List.foldl_append]
  rfl

theorem foldl_eq (n : ℕ) (ds : List (Fin k)) :
    ds.foldl (fun n (d : Fin k) => n * k + (d.val + 1)) n = n * k ^ ds.length + number ds := by
  induction ds using List.reverseRecOn with
  | nil => simp
  | append_singleton ds d ih =>
      rw [List.foldl_append, ih, number_concat, List.length_append, List.length_singleton,
        pow_succ, List.foldl_cons, List.foldl_nil]
      ring

theorem number_cons (d : Fin k) (ds : List (Fin k)) :
    number (d :: ds) = (d + 1) * k ^ ds.length + number ds := by
  rw [number, List.foldl_cons, foldl_eq, Nat.zero_mul, Nat.zero_add]

/-! ## Every number is written once -/

theorem number_injective : Function.Injective (number : List (Fin k) → ℕ) := by
  intro ds
  induction ds using List.reverseRecOn with
  | nil =>
      intro es heq
      induction es using List.reverseRecOn with
      | nil => rfl
      | append_singleton es e _ =>
          rw [number_nil, number_concat] at heq
          omega
  | append_singleton ds d ih =>
      intro es heq
      induction es using List.reverseRecOn with
      | nil =>
          rw [number_nil, number_concat] at heq
          omega
      | append_singleton es e _ =>
          have hsame : number ds * k + d = number es * k + e := by
            rw [number_concat, number_concat] at heq
            omega
          have hdigit : (d : ℕ) = e := by
            have hmod := congrArg (· % k) hsame
            simpa [Nat.mul_add_mod', Nat.mod_eq_of_lt d.isLt, Nat.mod_eq_of_lt e.isLt] using hmod
          have hrest : number ds = number es := by
            rw [hdigit] at hsame
            exact Nat.eq_of_mul_eq_mul_right d.pos (Nat.add_right_cancel hsame)
          rw [ih hrest, Fin.ext hdigit]

theorem exists_number (hk : 0 < k) (n : ℕ) : ∃ ds : List (Fin k), number ds = n := by
  induction n using Nat.strongRecOn with
  | ind n ih =>
      cases n with
      | zero => exact ⟨[], rfl⟩
      | succ n =>
          obtain ⟨ds, hds⟩ := ih (n / k) (Nat.lt_succ_of_le (Nat.div_le_self n k))
          refine ⟨ds ++ [⟨n % k, Nat.mod_lt n hk⟩], ?_⟩
          rw [number_concat, hds, ← Nat.add_assoc, Nat.div_add_mod']

/-! ## The order of the numbers -/

/-- The least number of a length. -/
def least (k : ℕ) : ℕ → ℕ
  | 0 => 0
  | n + 1 => least k n * k + 1

theorem least_succ (k n : ℕ) : least k (n + 1) = k ^ n + least k n := by
  induction n with
  | zero => simp [least]
  | succ n ih =>
      calc
        least k (n + 1 + 1) = least k (n + 1) * k + 1 := rfl
        _ = (k ^ n + least k n) * k + 1 := by rw [ih]
        _ = k ^ (n + 1) + (least k n * k + 1) := by ring

theorem least_mono {m n : ℕ} (hle : m ≤ n) : least k m ≤ least k n := by
  induction hle with
  | refl => exact le_rfl
  | step _ ih =>
      rw [least_succ]
      exact le_trans ih (Nat.le_add_left _ _)

theorem number_bounds (ds : List (Fin k)) :
    least k ds.length ≤ number ds ∧ number ds < least k (ds.length + 1) := by
  induction ds using List.reverseRecOn with
  | nil => exact ⟨le_rfl, Nat.zero_lt_succ _⟩
  | append_singleton ds d ih =>
      obtain ⟨hlow, hhigh⟩ := ih
      rw [number_concat, List.length_append, List.length_singleton]
      constructor
      · rw [least]
        have := Nat.mul_le_mul_right k hlow
        omega
      · rw [least]
        have hstep := Nat.mul_le_mul_right k (Nat.succ_le_of_lt hhigh)
        have hdigit := d.isLt
        rw [Nat.succ_mul] at hstep
        omega

theorem number_lt_of_lex (hlength : ds.length = es.length) (hlex : List.Lex (· < ·) ds es) :
    number ds < number es := by
  induction hlex with
  | nil => cases hlength
  | @cons d ds es _ ih =>
      rw [number_cons, number_cons]
      have hrest := Nat.succ.inj hlength
      rw [hrest]
      exact Nat.add_lt_add_left (ih hrest) _
  | @rel d ds e es hlt =>
      have hrest := Nat.succ.inj hlength
      obtain ⟨hlow, -⟩ := number_bounds es
      obtain ⟨-, hhigh⟩ := number_bounds ds
      rw [number_cons, number_cons, hrest]
      rw [hrest, least_succ] at hhigh
      have hdigit : (d + 1 : ℕ) + 1 ≤ e + 1 := Nat.succ_le_succ hlt
      have hscaled := Nat.mul_le_mul_right (k ^ es.length) hdigit
      rw [Nat.succ_mul] at hscaled
      omega

/-- Numbers are in the order of length and then of the digits. -/
theorem number_lt_iff : number ds < number es ↔ List.Shortlex (· < ·) ds es := by
  have hlt : ∀ {ds es : List (Fin k)}, List.Shortlex (· < ·) ds es → number ds < number es := by
    intro ds es hshort
    rcases List.shortlex_def.mp hshort with hlength | ⟨hlength, hlex⟩
    · exact lt_of_lt_of_le (number_bounds ds).2
        (le_trans (least_mono hlength) (number_bounds es).1)
    · exact number_lt_of_lex hlength hlex
  refine ⟨fun h => ?_, hlt⟩
  by_contra hnot
  have hback : ¬List.Shortlex (· < ·) es ds := fun hback => lt_asymm h (hlt hback)
  have heq : ds = es := Std.Trichotomous.trichotomous ds es hnot hback
  exact lt_irrefl _ (heq ▸ h)

end BijectiveNumeration
