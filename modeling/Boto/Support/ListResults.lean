import Mathlib.Data.List.Forall2

/-!
# Lists of results

A function that can fail succeeds on a list if it does on every element, with results that
stand where the elements do.
-/

namespace ListResults

variable {α β ε : Type} {f : α → Except ε β} {xs : List α} {ys : List β}

theorem mapM_cons_eq_ok {x : α} :
    (x :: xs).mapM f = .ok ys ↔ ∃ y rest, f x = .ok y ∧ xs.mapM f = .ok rest ∧ ys = y :: rest := by
  rw [List.mapM_cons]
  cases hx : f x with
  | error e =>
      refine iff_of_false (fun h => ?_) ?_
      · cases h
      · rintro ⟨y, rest, hy, -⟩
        cases hy
  | ok y =>
      cases hxs : xs.mapM f with
      | error e =>
          refine iff_of_false (fun h => ?_) ?_
          · cases h
          · rintro ⟨y, rest, -, hrest, -⟩
            cases hrest
      | ok rest =>
          constructor
          · intro h
            cases h
            exact ⟨y, rest, rfl, rfl, rfl⟩
          · rintro ⟨y, rest, hy, hrest, rfl⟩
            cases hy
            cases hrest
            rfl

theorem forall₂_of_mapM (hmap : xs.mapM f = .ok ys) :
    List.Forall₂ (fun x y => f x = .ok y) xs ys := by
  induction xs generalizing ys with
  | nil =>
      cases hmap
      exact .nil
  | cons x xs ih =>
      obtain ⟨y, rest, hy, hrest, rfl⟩ := mapM_cons_eq_ok.mp hmap
      exact .cons hy (ih hrest)

theorem exists_mapM_iff : (∃ ys, xs.mapM f = .ok ys) ↔ ∀ x ∈ xs, ∃ y, f x = .ok y := by
  induction xs with
  | nil => exact iff_of_true ⟨[], rfl⟩ (by simp)
  | cons x xs ih =>
      rw [List.forall_mem_cons, ← ih]
      constructor
      · rintro ⟨ys, hmap⟩
        obtain ⟨y, rest, hy, hrest, -⟩ := mapM_cons_eq_ok.mp hmap
        exact ⟨⟨y, hy⟩, rest, hrest⟩
      · rintro ⟨⟨y, hy⟩, rest, hrest⟩
        exact ⟨y :: rest, mapM_cons_eq_ok.mpr ⟨y, rest, hy, hrest, rfl⟩⟩

/-- Results that are related to the elements exist if each element has one. -/
theorem exists_mapM_forall₂_iff {r : α → β → Prop} :
    (∃ ys, xs.mapM f = .ok ys ∧ List.Forall₂ r xs ys) ↔ ∀ x ∈ xs, ∃ y, f x = .ok y ∧ r x y := by
  induction xs with
  | nil => exact iff_of_true ⟨[], rfl, .nil⟩ (by simp)
  | cons x xs ih =>
      rw [List.forall_mem_cons, ← ih]
      constructor
      · rintro ⟨ys, hmap, hrel⟩
        obtain ⟨y, rest, hy, hrest, rfl⟩ := mapM_cons_eq_ok.mp hmap
        obtain ⟨hfirst, hothers⟩ := List.forall₂_cons.mp hrel
        exact ⟨⟨y, hy, hfirst⟩, rest, hrest, hothers⟩
      · rintro ⟨⟨y, hy, hfirst⟩, rest, hrest, hothers⟩
        exact ⟨y :: rest, mapM_cons_eq_ok.mpr ⟨y, rest, hy, hrest, rfl⟩, .cons hfirst hothers⟩

/-- A function that succeeds where a condition holds succeeds on the lists of such elements. -/
theorem mapM_eq_ok_iff {p : α → Prop} {g : α → β}
    (hone : ∀ x y, f x = .ok y ↔ p x ∧ y = g x) :
    xs.mapM f = .ok ys ↔ (∀ x ∈ xs, p x) ∧ ys = xs.map g := by
  induction xs generalizing ys with
  | nil => simp [pure, Except.pure, eq_comm]
  | cons x xs ih =>
      rw [mapM_cons_eq_ok, List.forall_mem_cons, List.map_cons]
      constructor
      · rintro ⟨y, rest, hx, hrest, rfl⟩
        obtain ⟨hp, rfl⟩ := (hone x y).mp hx
        obtain ⟨hall, rfl⟩ := ih.mp hrest
        exact ⟨⟨hp, hall⟩, rfl⟩
      · rintro ⟨⟨hp, hall⟩, rfl⟩
        exact ⟨_, _, (hone x _).mpr ⟨hp, rfl⟩, ih.mpr ⟨hall, rfl⟩, rfl⟩

theorem mapM_of_ok {g : α → β} (hok : ∀ x, f x = .ok (g x)) (xs : List α) :
    xs.mapM f = .ok (xs.map g) := by
  induction xs with
  | nil => rfl
  | cons x xs ih =>
      rw [List.mapM_cons, hok, ih]
      rfl

/-- The error of a list is that of its first element with one. -/
theorem mapM_eq_error {e : ε} (hmap : xs.mapM f = .error e) :
    ∃ before x after, xs = before ++ x :: after ∧ (∀ y ∈ before, ∃ result, f y = .ok result) ∧
      f x = .error e := by
  induction xs with
  | nil => cases hmap
  | cons x xs ih =>
      rw [List.mapM_cons] at hmap
      cases hx : f x with
      | error e' =>
          rw [hx] at hmap
          cases hmap
          exact ⟨[], x, xs, rfl, by simp, hx⟩
      | ok y =>
          rw [hx] at hmap
          cases hxs : xs.mapM f with
          | ok rest =>
              rw [hxs] at hmap
              cases hmap
          | error e' =>
              rw [hxs] at hmap
              cases hmap
              obtain ⟨before, bad, after, rfl, hbefore, hbad⟩ := ih hxs
              refine ⟨x :: before, bad, after, rfl, ?_, hbad⟩
              exact List.forall_mem_cons.mpr ⟨⟨y, hx⟩, hbefore⟩

theorem mapM_of_first_error {before after : List α} {x : α} {e : ε}
    (hbefore : ∀ y ∈ before, ∃ result, f y = .ok result) (hx : f x = .error e) :
    (before ++ x :: after).mapM f = .error e := by
  induction before with
  | nil => rw [List.nil_append, List.mapM_cons, hx]; rfl
  | cons y before ih =>
      obtain ⟨⟨result, hy⟩, hrest⟩ := List.forall_mem_cons.mp hbefore
      rw [List.cons_append, List.mapM_cons, hy, ih hrest]
      rfl

theorem exists_related {r : α → β → Prop} {x : α} (hrel : List.Forall₂ r xs ys) (hin : x ∈ xs) :
    ∃ y ∈ ys, r x y := by
  induction hrel with
  | nil => cases hin
  | @cons x' y' xs ys hxy _ ih =>
      rcases List.mem_cons.mp hin with rfl | hin
      · exact ⟨y', List.mem_cons_self, hxy⟩
      · obtain ⟨y, hy, hr⟩ := ih hin
        exact ⟨y, List.mem_cons_of_mem _ hy, hr⟩

/-- What holds between the elements of a list holds between related elements. -/
theorem pairwise_iff_of_forall₂ {r : α → β → Prop} {p : α → α → Prop} {q : β → β → Prop}
    (hiff : ∀ x x' y y', r x y → r x' y' → (p x x' ↔ q y y')) (hrel : List.Forall₂ r xs ys) :
    xs.Pairwise p ↔ ys.Pairwise q := by
  induction hrel with
  | nil => exact iff_of_true .nil .nil
  | @cons x y xs ys hxy hrest ih =>
      have hfirst : (∀ x' ∈ xs, p x x') ↔ ∀ y' ∈ ys, q y y' := by
        clear ih
        induction hrest with
        | nil => exact iff_of_true (fun _ hin => nomatch hin) (fun _ hin => nomatch hin)
        | @cons x' y' xs ys hxy' _ ih =>
            rw [List.forall_mem_cons, List.forall_mem_cons, ih, hiff x x' y y' hxy hxy']
      rw [List.pairwise_cons, List.pairwise_cons, ih, hfirst]

/-- Two lists that go with a third one, of which each element goes with one thing. -/
theorem eq_of_forall_zip {zs : List β} {r : α → β → Prop}
    (hys : xs.length = ys.length) (hzs : xs.length = zs.length)
    (hunique : ∀ pair ∈ xs.zip ys, ∀ z, r pair.1 z → pair.2 = z)
    (hholds : ∀ pair ∈ xs.zip zs, r pair.1 pair.2) : ys = zs := by
  induction xs generalizing ys zs with
  | nil =>
      rw [List.length_nil] at hys hzs
      rw [List.length_eq_zero_iff.mp hys.symm, List.length_eq_zero_iff.mp hzs.symm]
  | cons x xs ih =>
      obtain ⟨y, ys, rfl⟩ := List.exists_cons_of_length_eq_add_one hys.symm
      obtain ⟨z, zs, rfl⟩ := List.exists_cons_of_length_eq_add_one hzs.symm
      rw [List.zip_cons_cons, List.forall_mem_cons] at hunique hholds
      have hhead : y = z := hunique.1 z hholds.1
      rw [hhead, ih (Nat.succ.inj hys) (Nat.succ.inj hzs) hunique.2 hholds.2]

/-- Pairs are their first and their second components. -/
theorem zip_map_fst_snd (pairs : List (α × β)) :
    (pairs.map Prod.fst).zip (pairs.map Prod.snd) = pairs := by
  have hunzip := List.zip_unzip pairs
  rwa [List.unzip_eq_map] at hunzip

end ListResults
