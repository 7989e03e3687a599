import Mathlib.Algebra.BigOperators.Intervals
import Mathlib.Algebra.Order.BigOperators.Group.List
import Mathlib.Data.List.Basic
import Mathlib.Tactic.Ring

/-!
# Placing pieces of a list at the positions they are sent for

A `Piece` carries elements for the positions `first` to `last`, both included.
`Covers` says that a list is exactly what some pieces place: at each of its
positions one piece puts its element, and no piece reaches beyond it.  Pieces
that follow each other without a gap cover their concatenation; conversely the
pieces of a covered list have its length in all and do not overlap.
-/

namespace Placement

variable {α : Type*}

/-- Elements for the positions `first` to `last`. -/
structure Piece (α : Type*) where
  first : ℤ
  last : ℤ
  data : List α

/-- The element a piece puts at position `x`. -/
def Piece.elemAt (q : Piece α) (x : ℕ) : Option α :=
  if q.first ≤ x ∧ x ≤ q.last then q.data[(x - q.first).toNat]? else none

/-- The range of the piece fits its data. -/
def Piece.Fits (q : Piece α) : Prop :=
  0 ≤ q.first ∧ q.last = q.first + q.data.length - 1

/-- The elements the pieces put at position `x`. -/
def placed (pieces : List (Piece α)) (x : ℕ) : List α :=
  pieces.filterMap fun q => q.elemAt x

/-- Every position of `xs` gets its element from exactly one piece, and no other
position gets one. -/
def Covers (pieces : List (Piece α)) (xs : List α) : Prop :=
  ∀ x, placed pieces x = xs[x]?.toList

@[simp] theorem placed_nil (x : ℕ) : placed ([] : List (Piece α)) x = [] := rfl

theorem placed_cons (q : Piece α) (qs : List (Piece α)) (x : ℕ) :
    placed (q :: qs) x = (q.elemAt x).toList ++ placed qs x := by
  rw [placed, List.filterMap_cons]
  cases q.elemAt x <;> rfl

/-- The pieces follow each other from position `o` on. -/
def Tiles : ℤ → List (Piece α) → Prop
  | _, [] => True
  | o, q :: qs =>
      q.first = o ∧ q.last = o + q.data.length - 1 ∧
        Tiles (o + q.data.length) qs

theorem Piece.elemAt_of_fits {q : Piece α} {o : ℕ} (hfirst : q.first = o)
    (hlast : q.last = o + q.data.length - 1) (x : ℕ) :
    q.elemAt x = if o ≤ x then q.data[x - o]? else none := by
  rw [Piece.elemAt, hfirst, hlast]
  by_cases ho : o ≤ x
  · have hindex : ((x : ℤ) - o).toNat = x - o := by omega
    rw [if_pos ho, hindex]
    by_cases hx : x - o < q.data.length
    · rw [if_pos (by omega)]
    · rw [if_neg (by omega), List.getElem?_eq_none (by omega)]
  · rw [if_neg ho, if_neg (by omega)]

theorem placed_of_tiles {o : ℕ} {qs : List (Piece α)} (hqs : Tiles o qs)
    (x : ℕ) :
    placed qs x =
      if o ≤ x then (qs.map (·.data)).flatten[x - o]?.toList else [] := by
  induction qs generalizing o with
  | nil => simp
  | cons q qs ih =>
      obtain ⟨hfirst, hlast, htail⟩ := hqs
      have hrest := ih (o := o + q.data.length) (by exact_mod_cast htail)
      rw [placed_cons, Piece.elemAt_of_fits hfirst hlast, hrest, List.map_cons,
        List.flatten_cons]
      by_cases ho : o ≤ x
      · rw [if_pos ho, if_pos ho]
        by_cases hx : x - o < q.data.length
        · rw [if_neg (by omega), List.append_nil, List.getElem?_append_left hx]
        · have hindex : x - (o + q.data.length) = x - o - q.data.length := by
            omega
          rw [if_pos (by omega), List.getElem?_eq_none (by omega), hindex,
            List.getElem?_append_right (by omega)]
          rfl
      · rw [if_neg ho, if_neg ho, if_neg (by omega)]
        rfl

/-- Pieces that follow each other cover their concatenation. -/
theorem covers_of_tiles {pieces : List (Piece α)} (h : Tiles 0 pieces) :
    Covers pieces (pieces.map (·.data)).flatten := by
  intro x
  simpa using placed_of_tiles (o := 0) h x

/-- Over enough positions, a fitting piece puts as many elements as it has. -/
theorem Piece.sum_length_elemAt {q : Piece α} (hq : q.Fits) {n : ℕ}
    (hn : q.first.toNat + q.data.length ≤ n) :
    ∑ x ∈ Finset.range n, (q.elemAt x).toList.length = q.data.length := by
  obtain ⟨hfirst, hlast⟩ := hq
  have hat := Piece.elemAt_of_fits (q := q) (o := q.first.toNat) (by omega)
    (by omega)
  have hterm : ∀ x, (q.elemAt x).toList.length =
      if x ∈ Finset.Ico q.first.toNat (q.first.toNat + q.data.length)
      then 1 else 0 := by
    intro x
    rw [hat]
    by_cases ho : q.first.toNat ≤ x
    · by_cases hx : x - q.first.toNat < q.data.length
      · rw [if_pos ho, List.getElem?_eq_getElem hx,
          if_pos (Finset.mem_Ico.mpr ⟨ho, by omega⟩)]
        rfl
      · rw [if_pos ho, List.getElem?_eq_none (by omega), if_neg]
        · rfl
        · rw [Finset.mem_Ico]
          omega
    · rw [if_neg ho, if_neg]
      · rfl
      · rw [Finset.mem_Ico]
        omega
  have hsub : Finset.Ico q.first.toNat (q.first.toNat + q.data.length) ⊆
      Finset.range n := by
    intro x hx
    have := Finset.mem_Ico.mp hx
    exact Finset.mem_range.mpr (by omega)
  rw [Finset.sum_congr rfl fun x _ => hterm x, Finset.sum_ite_mem,
    Finset.inter_eq_right.mpr hsub]
  simp

/-- The pieces of a covered list have its length in all. -/
theorem Covers.sum_length {pieces : List (Piece α)} {xs : List α}
    (hcov : Covers pieces xs) (hfits : ∀ q ∈ pieces, q.Fits) :
    (pieces.map (·.data.length)).sum = xs.length := by
  -- count the elements placed at the positions below a large enough bound
  have hbound : ∃ n, xs.length ≤ n ∧
      ∀ q ∈ pieces, q.first.toNat + q.data.length ≤ n := by
    clear hcov hfits
    induction pieces with
    | nil => exact ⟨xs.length, le_refl _, by simp⟩
    | cons q qs ih =>
        obtain ⟨n, hxs, hqs⟩ := ih
        refine ⟨max n (q.first.toNat + q.data.length), by omega, ?_⟩
        intro r hr
        rcases List.mem_cons.mp hr with rfl | hr
        · exact le_max_right _ _
        · exact (hqs r hr).trans (le_max_left _ _)
  obtain ⟨n, hxs, hqs⟩ := hbound
  have hplaced : ∑ x ∈ Finset.range n, (placed pieces x).length =
      (pieces.map (·.data.length)).sum := by
    clear hcov
    induction pieces with
    | nil => simp
    | cons q qs ih =>
        simp only [placed_cons, List.length_append]
        rw [Finset.sum_add_distrib,
          Piece.sum_length_elemAt (hfits q (by simp)) (hqs q (by simp)),
          ih (fun r hr => hfits r (by simp [hr]))
            (fun r hr => hqs r (by simp [hr])),
          List.map_cons, List.sum_cons]
  have hlist : ∑ x ∈ Finset.range n, (xs[x]?.toList).length = xs.length := by
    have hterm : ∀ x, (xs[x]?.toList).length =
        if x ∈ Finset.range xs.length then 1 else 0 := by
      intro x
      by_cases hx : x < xs.length
      · simp [hx]
      · simp [hx]
    rw [Finset.sum_congr rfl fun x _ => hterm x, Finset.sum_ite_mem,
      Finset.inter_eq_right.mpr (Finset.range_subset_range.mpr hxs)]
    simp
  rw [← hplaced, ← hlist]
  exact Finset.sum_congr rfl fun x _ => by rw [hcov x]

/-- A selection that keeps the whole size of a list of nonempty things keeps
all of them. -/
theorem keep_of_sum_le {β : Type*} {size : β → ℕ} {keep : β → Bool}
    {xs : List β} (hpos : ∀ x ∈ xs, 0 < size x)
    (hle : (xs.map size).sum ≤ ((xs.filter keep).map size).sum) :
    ∀ x ∈ xs, keep x = true := by
  induction xs with
  | nil => simp
  | cons x xs ih =>
      have htail : ((xs.filter keep).map size).sum ≤ (xs.map size).sum :=
        (List.filter_sublist.map size).sum_le_sum (by simp)
      have hx := hpos x (by simp)
      cases hkeep : keep x with
      | true =>
          rw [List.filter_cons_of_pos hkeep] at hle
          simp only [List.map_cons, List.sum_cons] at hle
          intro y hy
          rcases List.mem_cons.mp hy with rfl | hy
          · exact hkeep
          · exact ih (fun z hz => hpos z (by simp [hz])) (by omega) y hy
      | false =>
          rw [List.filter_cons_of_neg (by simp [hkeep])] at hle
          simp only [List.map_cons, List.sum_cons] at hle
          omega

/-- Two pieces of a covered list put nothing at the same position. -/
theorem Covers.not_elemAt_both {pieces : List (Piece α)} {xs : List α}
    (hcov : Covers pieces xs) {q r : Piece α}
    (hsub : [q, r].Sublist pieces) {x : ℕ} {a b : α}
    (hq : q.elemAt x = some a) (hr : r.elemAt x = some b) : False := by
  have hboth : placed [q, r] x = [a, b] := by
    simp [placed_cons, hq, hr]
  have hle : (placed [q, r] x).length ≤ (placed pieces x).length :=
    (hsub.filterMap _).length_le
  have hone : xs[x]?.toList.length ≤ 1 := by
    cases xs[x]? <;> simp
  rw [hboth, hcov x] at hle
  simp only [List.length_cons, List.length_nil] at hle
  omega

end Placement
