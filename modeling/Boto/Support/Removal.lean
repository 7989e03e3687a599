import Mathlib.Data.List.Infix
import Mathlib.Tactic.Common

/-!
# Removing a pattern from a text

The places of a pattern are removed from left to right, and are looked for only behind the
last one that was removed.
-/

namespace Removal

variable {α : Type} [BEq α] [LawfulBEq α] {pattern text : List α} {skip : ℕ}

/-- The text without the pattern, behind some items that still belong to a place of it. -/
def removeFrom (pattern : List α) : ℕ → List α → List α
  | _, [] => []
  | skip + 1, _ :: rest => removeFrom pattern skip rest
  | 0, x :: rest =>
      if pattern.isPrefixOf (x :: rest) then removeFrom pattern (pattern.length - 1) rest
      else x :: removeFrom pattern 0 rest

/-- The text without the pattern. -/
def remove (pattern text : List α) : List α := removeFrom pattern 0 text

omit [LawfulBEq α] in
theorem length_removeFrom_le (pattern : List α) (skip : ℕ) (text : List α) :
    (removeFrom pattern skip text).length ≤ text.length := by
  induction text generalizing skip with
  | nil => simp [removeFrom]
  | cons x rest ih =>
      cases skip with
      | zero =>
          rw [removeFrom]
          split
          · exact Nat.le_succ_of_le (ih _)
          · exact Nat.succ_le_succ (ih 0)
      | succ skip =>
          rw [removeFrom]
          exact Nat.le_succ_of_le (ih skip)

omit [LawfulBEq α] in
theorem length_remove_le (pattern text : List α) : (remove pattern text).length ≤ text.length :=
  length_removeFrom_le pattern 0 text

/-- Where the pattern does not occur, nothing is removed. -/
theorem remove_eq_self (hnot : ¬pattern <:+: text) : remove pattern text = text := by
  rw [remove]
  induction text with
  | nil => rfl
  | cons x rest ih =>
      have hstarts : ¬pattern.isPrefixOf (x :: rest) = true := fun h =>
        hnot (List.isPrefixOf_iff_prefix.mp h).isInfix
      rw [removeFrom, if_neg hstarts, ih fun h => hnot (List.infix_cons h)]

theorem length_remove_lt (hoccurs : pattern <:+: text) (hne : pattern ≠ []) :
    (remove pattern text).length < text.length := by
  rw [remove]
  induction text with
  | nil => exact absurd (List.infix_nil.mp hoccurs) hne
  | cons x rest ih =>
      rw [removeFrom]
      split
      · exact Nat.lt_succ_of_le (length_removeFrom_le _ _ _)
      · next hstarts =>
          rcases List.infix_cons_iff.mp hoccurs with hstart | hrest
          · exact absurd (List.isPrefixOf_iff_prefix.mpr hstart) hstarts
          · exact Nat.succ_lt_succ (ih hrest)

theorem remove_eq_self_iff (hne : pattern ≠ []) :
    remove pattern text = text ↔ ¬pattern <:+: text := by
  refine ⟨fun heq hoccurs => ?_, remove_eq_self⟩
  have hlt := length_remove_lt hoccurs hne
  rw [heq] at hlt
  exact Nat.lt_irrefl _ hlt

omit [LawfulBEq α] in
theorem removeFrom_append (pattern front rest : List α) :
    removeFrom pattern front.length (front ++ rest) = remove pattern rest := by
  induction front with
  | nil => rfl
  | cons x front ih =>
      rw [List.length_cons, List.cons_append, removeFrom]
      exact ih

/-- The pattern at the beginning is removed. -/
theorem remove_append (hne : pattern ≠ []) (rest : List α) :
    remove pattern (pattern ++ rest) = remove pattern rest := by
  obtain ⟨x, others, rfl⟩ := List.exists_cons_of_ne_nil hne
  have hstarts : (x :: others).isPrefixOf (x :: (others ++ rest)) = true :=
    List.isPrefixOf_iff_prefix.mpr ⟨rest, rfl⟩
  rw [remove, List.cons_append, removeFrom, if_pos hstarts]
  exact removeFrom_append _ others rest

/-- Where no place of the pattern begins, the items are kept. -/
theorem remove_append_of_not {front rest : List α}
    (hnot : ∀ before after, front = before ++ after → after ≠ [] → ¬pattern <+: after ++ rest) :
    remove pattern (front ++ rest) = front ++ remove pattern rest := by
  induction front with
  | nil => rfl
  | cons x front ih =>
      have hstarts : ¬pattern.isPrefixOf (x :: (front ++ rest)) = true := fun h =>
        hnot [] (x :: front) rfl (List.cons_ne_nil _ _) (List.isPrefixOf_iff_prefix.mp h)
      have hrest := ih fun before after heq hafter =>
        hnot (x :: before) after (by rw [heq, List.cons_append]) hafter
      rw [remove, List.cons_append, removeFrom, if_neg hstarts, List.cons_append]
      exact congrArg _ hrest

end Removal
