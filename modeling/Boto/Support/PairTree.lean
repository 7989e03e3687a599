import Boto.Support.Blocks
import Mathlib.Logic.Function.Iterate

/-!
# Reducing a list pairwise to one root

`level op` combines the elements of a list two by two and promotes an odd last
element unchanged.  Repeating it leaves one element, the `root`.  The point of
the module is `root_map_root_cut`: the blocks of `2 ^ k` elements can be reduced
separately, and the root of the list of their roots is the root of the whole
list.  A short last block reaches its root before the others do and is then
promoted until they do, so nothing is assumed about the number of elements.
-/

namespace PairTree

open Blocks

variable {α : Type*} (op : α → α → α)

/-- Combine neighbours, promoting an odd last element. -/
def level : List α → List α
  | first :: second :: rest => op first second :: level rest
  | [only] => [only]
  | [] => []

/-- The element left after enough levels, if the list is nonempty. -/
def root (xs : List α) : Option α :=
  ((level op)^[xs.length] xs).head?

@[simp] theorem level_nil : level op [] = [] := rfl

@[simp] theorem level_singleton (x : α) : level op [x] = [x] := rfl

@[simp] theorem level_cons_cons (x y : α) (rest : List α) :
    level op (x :: y :: rest) = op x y :: level op rest := rfl

theorem length_level (xs : List α) :
    (level op xs).length = (xs.length + 1) / 2 := by
  induction xs using level.induct with
  | case1 x y rest ih =>
      simp only [level_cons_cons, List.length_cons, ih]
      omega
  | case2 x => simp
  | case3 => simp

theorem level_append {xs : List α} (hxs : Even xs.length) (ys : List α) :
    level op (xs ++ ys) = level op xs ++ level op ys := by
  induction xs using level.induct with
  | case1 x y rest ih =>
      have hrest : Even rest.length := by
        simpa [Nat.even_add_one] using hxs
      simp only [List.cons_append, level_cons_cons, ih hrest]
  | case2 x => simp at hxs
  | case3 => simp

theorem level_eq_self {xs : List α} (hxs : xs.length ≤ 1) :
    level op xs = xs := by
  match xs, hxs with
  | [], _ => rfl
  | [x], _ => rfl

theorem iterate_level_eq_self {xs : List α} (hxs : xs.length ≤ 1) (k : ℕ) :
    (level op)^[k] xs = xs :=
  Function.iterate_fixed (level_eq_self op hxs) k

theorem iterate_level_nil (k : ℕ) : (level op)^[k] [] = [] :=
  iterate_level_eq_self op (by simp) k

/-- A nonempty list of at most `2 ^ k` elements is reduced by `k` levels. -/
theorem length_iterate_level {k : ℕ} {xs : List α} (hne : xs ≠ [])
    (hxs : xs.length ≤ 2 ^ k) : ((level op)^[k] xs).length = 1 := by
  induction k generalizing xs with
  | zero =>
      have hpos : 0 < xs.length := List.length_pos_iff.mpr hne
      simp only [Function.iterate_zero, id_eq]
      omega
  | succ k ih =>
      have hpos : 0 < xs.length := List.length_pos_iff.mpr hne
      rw [Function.iterate_succ_apply]
      apply ih
      · rw [← List.length_pos_iff, length_level]
        omega
      · rw [length_level]
        rw [pow_succ] at hxs
        omega

/-- Any number of levels large enough computes the root. -/
theorem root_eq_head?_iterate {k : ℕ} {xs : List α}
    (hxs : xs.length ≤ 2 ^ k) : root op xs = ((level op)^[k] xs).head? := by
  by_cases hne : xs = []
  · simp [root, hne, iterate_level_nil]
  · have hfull : ∀ {j}, xs.length ≤ 2 ^ j → ∀ m,
        (level op)^[m + j] xs = (level op)^[j] xs := by
      intro j hj m
      rw [Function.iterate_add_apply]
      exact iterate_level_eq_self op
        (length_iterate_level op hne hj).le m
    have hself : xs.length ≤ 2 ^ xs.length := Nat.lt_two_pow_self.le
    rw [root, ← hfull hself k, Nat.add_comm, hfull hxs]

@[simp] theorem root_nil : root op [] = none := rfl

@[simp] theorem root_singleton (x : α) : root op [x] = some x := rfl

theorem root_isSome {xs : List α} (hne : xs ≠ []) : (root op xs).isSome := by
  have hlen := length_iterate_level op hne Nat.lt_two_pow_self.le
  rw [root]
  cases h : (level op)^[xs.length] xs with
  | nil => simp [h] at hlen
  | cons x rest => simp

/-- The list left after `k` levels has the same root. -/
theorem root_iterate_level (k : ℕ) (xs : List α) :
    root op ((level op)^[k] xs) = root op xs := by
  have hlen : ((level op)^[k] xs).length ≤ xs.length := by
    induction k with
    | zero => simp
    | succ k ih =>
        rw [Function.iterate_succ_apply', length_level]
        omega
  have hself : xs.length ≤ 2 ^ xs.length := Nat.lt_two_pow_self.le
  rw [root_eq_head?_iterate op (hlen.trans hself), ← Function.iterate_add_apply,
    root_eq_head?_iterate op (k := xs.length + k)]
  exact hself.trans (Nat.pow_le_pow_right (by omega) (by omega))

/-- A full block of `2 ^ k` elements is reduced independently of what follows
it. -/
theorem iterate_level_append {k : ℕ} {xs : List α} (hxs : xs.length = 2 ^ k)
    (ys : List α) :
    (level op)^[k] (xs ++ ys) =
      (level op)^[k] xs ++ (level op)^[k] ys := by
  induction k generalizing xs ys with
  | zero => rfl
  | succ k ih =>
      have heven : Even xs.length := by
        rw [hxs, pow_succ]
        exact even_two.mul_left _
      have hhalf : (level op xs).length = 2 ^ k := by
        rw [length_level, hxs, pow_succ]
        omega
      simp only [Function.iterate_succ_apply]
      rw [level_append op heven, ih hhalf]

/-- After `k` levels every block of `2 ^ k` elements is replaced by its root. -/
theorem map_root_cut (k : ℕ) (xs : List α) :
    (cut (2 ^ k) xs).map (root op) = ((level op)^[k] xs).map some := by
  have hp : 0 < 2 ^ k := Nat.two_pow_pos k
  have hblock : ∀ b : List α, b ≠ [] → b.length ≤ 2 ^ k →
      ((level op)^[k] b).map some = [root op b] := by
    intro b hne hle
    rw [root_eq_head?_iterate op hle]
    obtain ⟨r, hr⟩ := List.length_eq_one_iff.mp
      (length_iterate_level op hne hle)
    rw [hr]
    rfl
  induction xs using cut_induction hp with
  | nil => simp [iterate_level_nil]
  | block xs hxs ih =>
      have htake : xs.take (2 ^ k) ≠ [] := by
        simp [List.take_eq_nil_iff, hxs]
      rw [cut_eq_cons hp hxs, List.map_cons, ih]
      by_cases hle : xs.length ≤ 2 ^ k
      · rw [List.take_of_length_le hle, List.drop_of_length_le hle,
          iterate_level_nil, hblock xs hxs hle]
        rfl
      · have hlen : (xs.take (2 ^ k)).length = 2 ^ k := by
          rw [List.length_take]
          omega
        conv_rhs => rw [← List.take_append_drop (2 ^ k) xs]
        rw [iterate_level_append op hlen, List.map_append,
          hblock _ htake hlen.le]
        rfl

/-- Reducing the blocks of `2 ^ k` elements first does not change the root. -/
theorem root_map_root_cut {k : ℕ} {xs roots : List α}
    (hroots : (cut (2 ^ k) xs).map (root op) = roots.map some) :
    root op roots = root op xs := by
  rw [map_root_cut] at hroots
  have heq : (level op)^[k] xs = roots :=
    List.map_injective_iff.mpr (Option.some_injective α) hroots
  rw [← heq, root_iterate_level]

end PairTree
