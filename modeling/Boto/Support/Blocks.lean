import Mathlib.Algebra.Order.Floor.Div
import Mathlib.Data.List.Basic
import Mathlib.Tactic.Ring

/-!
# Cutting a list into consecutive blocks

`cut p xs` is the list of the consecutive `p`-element blocks of `xs`, the last
one possibly shorter.  The blocks are indexed from the start of the list, so
block `i` holds the elements from position `i * p` on.  The main facts are the
recursion `cut_eq_cons`, the characterisation `cut_flatten_append` of a list
that was assembled from full blocks, and `cut_mul`, which says that cutting into
blocks of `m * c` elements groups the blocks of `c` elements by `m`.
-/

namespace Blocks

variable {α β : Type*}

/-- The consecutive blocks of `p` elements of `xs`. -/
def cut (p : ℕ) (xs : List α) : List (List α) :=
  (List.range (xs.length ⌈/⌉ p)).map fun i => (xs.drop (i * p)).take p

@[simp] theorem cut_nil (p : ℕ) : cut p ([] : List α) = [] := by
  simp [cut]

@[simp] theorem length_cut (p : ℕ) (xs : List α) :
    (cut p xs).length = xs.length ⌈/⌉ p := by
  simp [cut]

/-- The number of blocks grows by one with a full block in front. -/
theorem ceilDiv_eq_succ {n p : ℕ} (hp : 0 < p) (hn : 0 < n) :
    n ⌈/⌉ p = (n - p) ⌈/⌉ p + 1 := by
  rw [Nat.ceilDiv_eq_add_pred_div, Nat.ceilDiv_eq_add_pred_div]
  by_cases h : p ≤ n
  · have hsplit : n + p - 1 = (n - p + p - 1) + p := by omega
    rw [hsplit, Nat.add_div_right _ hp]
  · have hsmall : n - p + p - 1 = p - 1 := by omega
    have hrest : n + p - 1 = (n - 1) + p := by omega
    rw [hsmall, hrest, Nat.add_div_right _ hp,
      Nat.div_eq_of_lt (by omega), Nat.div_eq_of_lt (by omega)]

theorem lt_ceilDiv_iff {n p i : ℕ} (hp : 0 < p) :
    i < n ⌈/⌉ p ↔ i * p < n := by
  rw [← not_le, ceilDiv_le_iff_le_mul hp, not_le, Nat.mul_comm]

/-- A nonempty list is its first block followed by the blocks of the rest. -/
theorem cut_eq_cons {p : ℕ} (hp : 0 < p) {xs : List α} (hxs : xs ≠ []) :
    cut p xs = xs.take p :: cut p (xs.drop p) := by
  have hlen : 0 < xs.length := List.length_pos_iff.mpr hxs
  simp only [cut, List.length_drop]
  rw [ceilDiv_eq_succ hp hlen, List.range_succ_eq_map, List.map_cons,
    List.map_map]
  simp only [Nat.zero_mul, List.drop_zero, List.cons.injEq, true_and]
  apply List.map_congr_left
  intro i _
  simp only [Function.comp_apply, List.drop_drop, Nat.succ_mul,
    Nat.add_comm p]

theorem cut_append_of_length_eq {p : ℕ} (hp : 0 < p) {a b : List α}
    (ha : a.length = p) : cut p (a ++ b) = a :: cut p b := by
  have hne : a ++ b ≠ [] := by
    intro h
    have : a.length = 0 := by simp [(List.append_eq_nil_iff.mp h).1]
    omega
  rw [cut_eq_cons hp hne, List.take_left' ha, List.drop_left' ha]

theorem cut_eq_singleton {p : ℕ} {b : List α} (hb : b ≠ [])
    (hle : b.length ≤ p) : cut p b = [b] := by
  have hlen : 0 < b.length := List.length_pos_iff.mpr hb
  rw [cut_eq_cons (by omega) hb, List.take_of_length_le hle,
    List.drop_of_length_le hle, cut_nil]

/-- Full blocks in front of a list are its first blocks. -/
theorem cut_flatten_append {p : ℕ} (hp : 0 < p) {bs : List (List α)}
    (hbs : ∀ b ∈ bs, b.length = p) (rest : List α) :
    cut p (bs.flatten ++ rest) = bs ++ cut p rest := by
  induction bs with
  | nil => simp
  | cons b bs ih =>
      have hb : b.length = p := hbs b (by simp)
      have htail := ih fun b' hb' => hbs b' (by simp [hb'])
      rw [List.flatten_cons, List.append_assoc,
        cut_append_of_length_eq hp hb, htail, List.cons_append]

/-- Induction along the blocks of a list. -/
theorem cut_induction {p : ℕ} (hp : 0 < p) {motive : List α → Prop}
    (nil : motive [])
    (block : ∀ xs, xs ≠ [] → motive (xs.drop p) → motive xs)
    (xs : List α) : motive xs := by
  induction hn : xs.length using Nat.strong_induction_on generalizing xs with
  | _ n ih =>
      by_cases hxs : xs = []
      · rw [hxs]
        exact nil
      · have hlen : 0 < xs.length := List.length_pos_iff.mpr hxs
        apply block xs hxs
        exact ih (xs.drop p).length (by simp; omega) _ rfl

@[simp] theorem flatten_cut {p : ℕ} (hp : 0 < p) (xs : List α) :
    (cut p xs).flatten = xs := by
  induction xs using cut_induction hp with
  | nil => simp
  | block xs hxs ih =>
      rw [cut_eq_cons hp hxs, List.flatten_cons, ih, List.take_append_drop]

theorem length_of_mem_cut {p : ℕ} (hp : 0 < p) {xs b : List α}
    (hb : b ∈ cut p xs) : 0 < b.length ∧ b.length ≤ p := by
  obtain ⟨i, hi, rfl⟩ := List.mem_map.mp hb
  have hlt : i * p < xs.length := (lt_ceilDiv_iff hp).mp (List.mem_range.mp hi)
  simp only [List.length_take, List.length_drop]
  omega

theorem ne_nil_of_mem_cut {p : ℕ} (hp : 0 < p) {xs b : List α}
    (hb : b ∈ cut p xs) : b ≠ [] :=
  List.length_pos_iff.mp (length_of_mem_cut hp hb).1

/-- `bs` are full blocks of `xs` and a nonempty last one. -/
structure IsCut (p : ℕ) (xs : List α) (bs : List (List α)) : Prop where
  join : bs.flatten = xs
  full : ∀ b ∈ bs.dropLast, b.length = p
  last : ∀ b ∈ bs.getLast?, 0 < b.length ∧ b.length ≤ p

theorem isCut_concat {p : ℕ} {bs : List (List α)} {b : List α}
    (hbs : ∀ b ∈ bs, b.length = p) (hb : b ≠ []) (hle : b.length ≤ p) :
    IsCut p (bs.flatten ++ b) (bs ++ [b]) where
  join := by simp
  full := by simpa using hbs
  last := by
    intro b' hb'
    rw [List.getLast?_concat, Option.mem_some_iff] at hb'
    subst hb'
    exact ⟨List.length_pos_iff.mpr hb, hle⟩

theorem isCut_nil (p : ℕ) : IsCut p ([] : List α) [] :=
  ⟨rfl, by simp, by simp⟩

theorem IsCut.eq_cut {p : ℕ} {xs : List α} {bs : List (List α)} (hp : 0 < p)
    (h : IsCut p xs bs) : bs = cut p xs := by
  obtain ⟨rfl, hfull, hlast⟩ := h
  rcases List.eq_nil_or_concat bs with rfl | ⟨init, b, rfl⟩
  · simp
  · rw [List.concat_eq_append] at *
    rw [List.dropLast_concat] at hfull
    obtain ⟨hpos, hle⟩ := hlast b (by simp)
    rw [List.flatten_append, cut_flatten_append hp hfull, List.flatten_singleton,
      cut_eq_singleton (List.length_pos_iff.mp hpos) hle]

theorem cut_map (f : α → β) (p : ℕ) (xs : List α) :
    cut p (xs.map f) = (cut p xs).map (List.map f) := by
  simp [cut, Function.comp_def, List.map_take, List.map_drop]

/-- A list of `m * c` elements has exactly `m` blocks of `c` elements. -/
theorem length_cut_of_length_eq_mul {c m : ℕ} (hc : 0 < c) {xs : List α}
    (hxs : xs.length = m * c) : (cut c xs).length = m := by
  rw [length_cut, hxs, Nat.mul_comm, ← smul_eq_mul, smul_ceilDiv hc]

theorem length_of_mem_cut_of_length_eq_mul {c m : ℕ} (hc : 0 < c)
    {xs b : List α} (hxs : xs.length = m * c) (hb : b ∈ cut c xs) :
    b.length = c := by
  obtain ⟨i, hi, rfl⟩ := List.mem_map.mp hb
  have hpos : i * c < m * c := by
    rw [← hxs]
    exact (lt_ceilDiv_iff hc).mp (List.mem_range.mp hi)
  have him : i + 1 ≤ m := Nat.lt_of_mul_lt_mul_right hpos
  have hmul : (i + 1) * c ≤ m * c := Nat.mul_le_mul_right c him
  have hsucc : (i + 1) * c = i * c + c := by ring
  rw [List.length_take, List.length_drop, hxs]
  omega

/-- Cutting into blocks of `m * c` elements groups the blocks of `c` elements
by `m`. -/
theorem cut_mul {c m : ℕ} (hc : 0 < c) (hm : 0 < m) (xs : List α) :
    (cut (m * c) xs).map (cut c) = cut m (cut c xs) := by
  have hp : 0 < m * c := Nat.mul_pos hm hc
  induction xs using cut_induction hp with
  | nil => simp
  | block xs hxs ih =>
      rw [cut_eq_cons hp hxs, List.map_cons, ih]
      by_cases hle : xs.length ≤ m * c
      · have hne : cut c xs ≠ [] := by simp [cut_eq_cons hc hxs]
        have hcount : (cut c xs).length ≤ m := by
          rw [length_cut, ceilDiv_le_iff_le_mul hc, Nat.mul_comm]
          exact hle
        rw [List.take_of_length_le hle, List.drop_of_length_le hle, cut_nil,
          cut_nil, cut_eq_singleton hne hcount]
      · have hlen : (xs.take (m * c)).length = m * c := by
          rw [List.length_take]
          omega
        have hsplit : cut c xs =
            cut c (xs.take (m * c)) ++ cut c (xs.drop (m * c)) := by
          have hcat := cut_flatten_append hc
            (fun _ hb => length_of_mem_cut_of_length_eq_mul hc hlen hb)
            (xs.drop (m * c))
          rwa [flatten_cut hc, List.take_append_drop] at hcat
        rw [hsplit, cut_append_of_length_eq hm
          (length_cut_of_length_eq_mul hc hlen)]

end Blocks
