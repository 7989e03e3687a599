import Mathlib.Data.List.Chain
import Mathlib.Data.List.Nodup
import Mathlib.Logic.Function.Basic
import Mathlib.Tactic.Common

/-!
# Doubly linked lists

The cells of a list are numbered, and each has a pointer to the next and to the
previous one.  The absent pointer stands for the list itself: what follows it is the
first cell, and what precedes it is the last one.  The pointers of a list form a ring,
so inserting and removing cells has no special cases at the ends.
-/

/-- The pointers of some cells, and of the list itself. -/
structure Links where
  next : Option ℕ → Option ℕ
  previous : Option ℕ → Option ℕ

namespace Links

/-- The pointers with another next one. -/
def setNext (links : Links) (cell target : Option ℕ) : Links :=
  { links with next := Function.update links.next cell target }

/-- The pointers with another previous one. -/
def setPrevious (links : Links) (cell target : Option ℕ) : Links :=
  { links with previous := Function.update links.previous cell target }

@[simp] theorem next_setPrevious (links : Links) (cell target : Option ℕ) :
    (links.setPrevious cell target).next = links.next := rfl

@[simp] theorem previous_setNext (links : Links) (cell target : Option ℕ) :
    (links.setNext cell target).previous = links.previous := rfl

theorem next_setNext_of_ne (links : Links) {x cell : Option ℕ} (hne : x ≠ cell)
    (target : Option ℕ) : (links.setNext cell target).next x = links.next x :=
  Function.update_of_ne hne _ _

theorem previous_setPrevious_of_ne (links : Links) {x cell : Option ℕ} (hne : x ≠ cell)
    (target : Option ℕ) :
    (links.setPrevious cell target).previous x = links.previous x :=
  Function.update_of_ne hne _ _

/-- Two pointers that follow each other. -/
def Joined (links : Links) (x y : Option ℕ) : Prop :=
  links.next x = y ∧ links.previous y = x

/-- The pointers of a list of cells, from the list itself and back to it. -/
def ring (cells : List ℕ) : List (Option ℕ) :=
  none :: (cells.map some ++ [none])

/-- The pointers hold a list of cells. -/
def Holds (links : Links) (cells : List ℕ) : Prop :=
  (ring cells).IsChain links.Joined

/-- What is visited by following next pointers. -/
inductive Forward (links : Links) : Option ℕ → List ℕ → Prop
  | done : Forward links none []
  | step {cell : ℕ} {cells : List ℕ} (hrest : Forward links (links.next (some cell)) cells) :
      Forward links (some cell) (cell :: cells)

/-- What is visited by following previous pointers. -/
inductive Backward (links : Links) : Option ℕ → List ℕ → Prop
  | done : Backward links none []
  | step {cell : ℕ} {cells : List ℕ}
      (hrest : Backward links (links.previous (some cell)) cells) :
      Backward links (some cell) (cell :: cells)

variable {links : Links} {cells : List ℕ}

theorem isChain_of_pairs {α : Type} {R S : α → α → Prop} {l : List α}
    (hchain : l.IsChain R)
    (himp : ∀ x ∈ l.dropLast, ∀ y ∈ l.tail, R x y → S x y) : l.IsChain S := by
  rw [List.isChain_iff_forall_rel_of_append_cons_cons] at hchain ⊢
  intro x y before after heq
  refine himp x ?_ y ?_ (hchain heq)
  · rw [heq, List.dropLast_append_of_ne_nil (List.cons_ne_nil _ _),
      List.dropLast_cons_of_ne_nil (List.cons_ne_nil _ _)]
    simp
  · rw [heq]
    cases before <;> simp

theorem joined_setNext {x y p target : Option ℕ} (hne : x ≠ p)
    (hjoined : links.Joined x y) : (links.setNext p target).Joined x y := by
  exact ⟨(next_setNext_of_ne _ hne _).trans hjoined.1, hjoined.2⟩

theorem joined_setPrevious {x y p target : Option ℕ} (hne : y ≠ p)
    (hjoined : links.Joined x y) : (links.setPrevious p target).Joined x y := by
  exact ⟨hjoined.1, (previous_setPrevious_of_ne _ hne _).trans hjoined.2⟩

theorem joined_set (links : Links) (x y : Option ℕ) :
    ((links.setNext x y).setPrevious y x).Joined x y := by
  simp [Joined, setNext, setPrevious]

/-! ## The ends -/

theorem holds_nil_iff : links.Holds [] ↔ links.next none = none ∧
    links.previous none = none := by
  simp [Holds, ring, Joined]

theorem Holds.next_none (hholds : links.Holds cells) : links.next none = cells.head? := by
  cases cells with
  | nil => exact (holds_nil_iff.mp hholds).1
  | cons cell cells => exact (List.isChain_cons_cons.mp hholds).1.1

/-- The neighbours of a cell. -/
theorem Holds.neighbours {before after : List ℕ} {cell : ℕ}
    (hholds : links.Holds (before ++ cell :: after)) :
    links.next (some cell) = after.head? ∧
      links.previous (some cell) = before.getLast? := by
  have hsplit : ring (before ++ cell :: after) =
      (none :: before.map some) ++ some cell :: (after.map some ++ [none]) := by
    simp [ring]
  rw [Holds, hsplit, List.isChain_append] at hholds
  obtain ⟨-, hafter, hseam⟩ := hholds
  constructor
  · cases after with
    | nil => exact (List.isChain_cons_cons.mp hafter).1.1
    | cons next after => exact (List.isChain_cons_cons.mp hafter).1.1
  · cases hlast : before.getLast? with
    | none =>
        rw [List.getLast?_eq_none_iff.mp hlast] at hseam
        exact (hseam none rfl (some cell) rfl).2
    | some last =>
        refine (hseam (some last) ?_ (some cell) rfl).2
        cases before with
        | nil => cases hlast
        | cons first before =>
            rw [List.map_cons, List.getLast?_cons_cons, ← List.map_cons,
              List.getLast?_map, hlast]
            rfl

theorem Holds.previous_none (hholds : links.Holds cells) :
    links.previous none = cells.getLast? := by
  have hsplit : ring cells = (none :: cells.map some) ++ [none] := rfl
  rw [Holds, hsplit, List.isChain_append] at hholds
  cases hlast : cells.getLast? with
  | none =>
      rw [List.getLast?_eq_none_iff.mp hlast] at hholds
      exact (hholds.2.2 none rfl none rfl).2
  | some last =>
      refine (hholds.2.2 (some last) ?_ none rfl).2
      cases cells with
      | nil => cases hlast
      | cons first cells =>
          rw [List.map_cons, List.getLast?_cons_cons, ← List.map_cons,
            List.getLast?_map, hlast]
          rfl

/-! ## Traversals -/

theorem Holds.forward_suffix {before after : List ℕ}
    (hholds : links.Holds (before ++ after)) : links.Forward after.head? after := by
  induction after generalizing before with
  | nil => exact .done
  | cons cell after ih =>
      have hrest := @ih (before ++ [cell]) (by simpa using hholds)
      refine .step ?_
      rw [hholds.neighbours.1]
      exact hrest

/-- Following next pointers visits the cells. -/
theorem Holds.forward (hholds : links.Holds cells) :
    links.Forward (links.next none) cells := by
  rw [hholds.next_none]
  exact @forward_suffix links [] cells hholds

theorem Holds.backward_before {before after : List ℕ}
    (hholds : links.Holds (before ++ after)) :
    links.Backward before.getLast? before.reverse := by
  induction before using List.reverseRecOn generalizing after with
  | nil => exact .done
  | append_singleton before cell ih =>
      rw [List.append_assoc] at hholds
      rw [List.getLast?_concat, List.reverse_concat]
      refine .step ?_
      rw [hholds.neighbours.2]
      exact ih hholds

/-- Following previous pointers visits the cells in reverse. -/
theorem Holds.backward (hholds : links.Holds cells) :
    links.Backward (links.previous none) cells.reverse := by
  rw [hholds.previous_none]
  exact @backward_before links cells [] (by simpa using hholds)

/-! ## Removing and inserting cells -/

/-- A cell is taken out of its list. -/
def remove (links : Links) (cell : ℕ) : Links :=
  (links.setNext (links.previous (some cell)) (links.next (some cell))).setPrevious
    (links.next (some cell)) (links.previous (some cell))

/-- A cell becomes the first one. -/
def push (links : Links) (cell : ℕ) : Links :=
  (((links.setPrevious (some cell) none).setNext (some cell) (links.next none)).setPrevious
    (links.next none) (some cell)).setNext none (some cell)

theorem chain_remove {a b : List (Option ℕ)} {p c n : Option ℕ}
    (hchain : (a ++ p :: c :: n :: b).IsChain links.Joined)
    (hbefore : p ∉ a) (hafter : p ∉ (n :: b).dropLast) (hnext : n ∉ b)
    (hprevious : n ∉ (a ++ [p]).tail) :
    (a ++ p :: n :: b).IsChain ((links.setNext p n).setPrevious n p).Joined := by
  have hkeep : ∀ {x y : Option ℕ}, x ≠ p → y ≠ n → links.Joined x y →
      ((links.setNext p n).setPrevious n p).Joined x y := fun hx hy hjoined =>
    joined_setPrevious hy (joined_setNext hx hjoined)
  rw [List.isChain_append_cons_cons, List.isChain_cons_cons] at hchain
  obtain ⟨hleft, -, -, hright⟩ := hchain
  rw [List.isChain_append_cons_cons]
  refine ⟨isChain_of_pairs hleft ?_, joined_set links p n, isChain_of_pairs hright ?_⟩
  · intro x hx y hy hjoined
    rw [List.dropLast_concat] at hx
    exact hkeep (fun heq => hbefore (heq ▸ hx)) (fun heq => hprevious (heq ▸ hy)) hjoined
  · intro x hx y hy hjoined
    exact hkeep (fun heq => hafter (heq ▸ hx)) (fun heq => hnext (heq ▸ hy)) hjoined

theorem exists_concat_getLast? (cells : List ℕ) :
    ∃ a, none :: cells.map some = a ++ [cells.getLast?] := by
  induction cells using List.reverseRecOn with
  | nil => exact ⟨[], rfl⟩
  | append_singleton cells cell =>
      exact ⟨none :: cells.map some, by simp⟩

theorem exists_head?_cons (cells : List ℕ) :
    ∃ b, cells.map some ++ [none] = cells.head? :: b := by
  cases cells with
  | nil => exact ⟨[], rfl⟩
  | cons cell cells => exact ⟨cells.map some ++ [none], rfl⟩

theorem nodup_sources (hnodup : cells.Nodup) : (none :: cells.map some).Nodup :=
  List.nodup_cons.mpr ⟨by simp, hnodup.map fun _ _ => Option.some.inj⟩

theorem nodup_targets (hnodup : cells.Nodup) : (cells.map some ++ [none]).Nodup := by
  rw [List.nodup_append_comm]
  exact nodup_sources hnodup

theorem Holds.remove {before after : List ℕ} {cell : ℕ}
    (hholds : links.Holds (before ++ cell :: after))
    (hnodup : (before ++ cell :: after).Nodup) :
    (links.remove cell).Holds (before ++ after) := by
  obtain ⟨hnext, hprevious⟩ := hholds.neighbours
  obtain ⟨a, ha⟩ := exists_concat_getLast? before
  obtain ⟨b, hb⟩ := exists_head?_cons after
  have hrest := (List.nodup_middle.mp hnodup).of_cons
  have hsources := nodup_sources hrest
  have htargets := nodup_targets hrest
  rw [List.map_append, ← List.cons_append, ha, List.nodup_append] at hsources
  rw [List.map_append, List.append_assoc, hb, List.nodup_append] at htargets
  have hring : ring (before ++ cell :: after) =
      a ++ before.getLast? :: some cell :: after.head? :: b := by
    have hsplit : ring (before ++ cell :: after) =
        (none :: before.map some) ++ some cell :: (after.map some ++ [none]) := by
      simp [ring]
    rw [hsplit, ha, hb, List.append_assoc, List.singleton_append]
  have hring' : ring (before ++ after) = a ++ before.getLast? :: after.head? :: b := by
    have hsplit : ring (before ++ after) =
        (none :: before.map some) ++ (after.map some ++ [none]) := by simp [ring]
    rw [hsplit, ha, hb, List.append_assoc, List.singleton_append]
  rw [Holds, hring] at hholds
  rw [Holds, hring', Links.remove, hnext, hprevious]
  refine chain_remove hholds ?_ ?_ ?_ ?_
  · exact fun hmem => (List.nodup_append.mp hsources.1).2.2 _ hmem _ (by simp) rfl
  · rw [← hb, List.dropLast_concat]
    exact fun hmem => hsources.2.2 _ (by simp) _ hmem rfl
  · exact (List.nodup_cons.mp htargets.2.1).1
  · rw [← ha, List.tail_cons]
    exact fun hmem => htargets.2.2 _ hmem _ (by simp) rfl

theorem Holds.push {cell : ℕ} (hholds : links.Holds cells) (hnew : cell ∉ cells)
    (hnodup : cells.Nodup) : (links.push cell).Holds (cell :: cells) := by
  obtain ⟨b, hb⟩ := exists_head?_cons cells
  have hfirst := hholds.next_none
  have htargets := nodup_targets hnodup
  have hnone : some cell ∉ cells.map some ++ [none] := by simp [hnew]
  rw [hb, List.nodup_cons] at htargets
  rw [hb, List.mem_cons, not_or] at hnone
  have hring : ring (cell :: cells) = none :: some cell :: cells.head? :: b := by
    rw [← hb]
    rfl
  rw [Holds, ring, hb, List.isChain_cons_cons] at hholds
  rw [Holds, hring, Links.push, hfirst, List.isChain_cons_cons, List.isChain_cons_cons]
  refine ⟨?_, ?_, isChain_of_pairs hholds.2 ?_⟩
  · simp [Joined, setNext, setPrevious, Function.update_of_ne hnone.1]
  · simp [Joined, setNext, setPrevious]
  · intro x hx y hy hjoined
    have hsource : x ∈ cells.map some := by
      rwa [← hb, List.dropLast_concat] at hx
    have hx₁ : x ≠ some cell := by
      rintro rfl
      exact hnew (by simpa using hsource)
    have hx₂ : x ≠ none := by
      rintro rfl
      simp at hsource
    have hy₁ : y ≠ some cell := fun heq => hnone.2 (heq ▸ hy)
    have hy₂ : y ≠ cells.head? := fun heq => htargets.1 (heq ▸ hy)
    exact joined_setNext hx₂ (joined_setPrevious hy₂ (joined_setNext hx₁
      (joined_setPrevious hy₁ hjoined)))

end Links
