import Mathlib.Data.List.Basic
import Mathlib.Data.Nat.Notation

/-!
# Greedy matching

Pieces of regular expressions as functions that take what follows them: a repetition takes as
much as it can and gives back what the rest needs, and a search takes the leftmost start.  What
such a match is made of, and that it exists where a decomposition does, is all that users need.
-/

namespace GreedyMatch

variable {σ α : Type}

/-! ## Pieces -/

/-- `p*` and what follows it, with the longest part first. -/
def greedy (p : σ → Bool) (next : List σ → Option α) : List σ → Option (List σ × α)
  | [] => (next []).map ([], ·)
  | c :: rest =>
      match if p c then greedy p next rest else none with
      | some (taken, found) => some (c :: taken, found)
      | none => (next (c :: rest)).map ([], ·)

/-- `p+` and what follows it. -/
def greedyOne (p : σ → Bool) (next : List σ → Option α) : List σ → Option (List σ × α)
  | [] => none
  | c :: rest =>
      if p c then (greedy p next rest).map fun found => (c :: found.1, found.2) else none

/-- One element and what follows it. -/
def after [DecidableEq σ] (c : σ) (next : List σ → Option α) : List σ → Option α
  | [] => none
  | d :: rest => if d = c then next rest else none

/-- A match at the leftmost start. -/
def search (found : List σ → Option α) : List σ → Option α
  | [] => found []
  | c :: rest =>
      match found (c :: rest) with
      | some result => some result
      | none => search found rest

/-! ## Repetitions -/

section Repetition

variable {p : σ → Bool} {next : List σ → Option α} {text taken front rest : List σ} {result : α}

theorem greedy_cons_of_none {c : σ} (hnone : (if p c then greedy p next text else none) = none) :
    greedy p next (c :: text) = (next (c :: text)).map ([], ·) := by
  rw [greedy, hnone]

theorem greedy_cons_of_some {c : σ} (hp : p c = true)
    (hsome : greedy p next text = some (taken, result)) :
    greedy p next (c :: text) = some (c :: taken, result) := by
  rw [greedy, if_pos hp, hsome]

/-- Either the first element is taken or nothing is. -/
theorem greedy_cons_cases {c : σ} (hmatch : greedy p next (c :: text) = some (taken, result)) :
    (p c = true ∧ ∃ more, taken = c :: more ∧ greedy p next text = some (more, result)) ∨
      (taken = [] ∧ next (c :: text) = some result ∧
        (p c = true → greedy p next text = none)) := by
  cases hfirst : (if p c then greedy p next text else none) with
  | none =>
      rw [greedy_cons_of_none hfirst, Option.map_eq_some_iff] at hmatch
      obtain ⟨found, hnext, heq⟩ := hmatch
      cases heq
      refine .inr ⟨rfl, hnext, fun hp => ?_⟩
      rwa [if_pos hp] at hfirst
  | some found =>
      by_cases hp : p c = true
      · rw [if_pos hp] at hfirst
        rw [greedy_cons_of_some hp hfirst] at hmatch
        cases hmatch
        exact .inl ⟨hp, found.1, rfl, hfirst⟩
      · rw [if_neg hp] at hfirst
        cases hfirst

/-- What is taken and what follows it. -/
theorem exists_of_greedy (hmatch : greedy p next text = some (taken, result)) :
    ∃ rest, text = taken ++ rest ∧ (∀ c ∈ taken, p c = true) ∧ next rest = some result := by
  induction text generalizing taken with
  | nil =>
      rw [greedy, Option.map_eq_some_iff] at hmatch
      obtain ⟨found, hnext, heq⟩ := hmatch
      cases heq
      exact ⟨[], rfl, List.forall_mem_nil _, hnext⟩
  | cons c text ih =>
      rcases greedy_cons_cases hmatch with ⟨hp, more, rfl, hmore⟩ | ⟨rfl, hnext, -⟩
      · obtain ⟨rest, htext, hall, hnext⟩ := ih hmore
        refine ⟨rest, by rw [htext, List.cons_append], ?_, hnext⟩
        exact List.forall_mem_cons.mpr ⟨hp, hall⟩
      · exact ⟨c :: text, rfl, List.forall_mem_nil _, hnext⟩

/-- There is a match where the text can be divided. -/
theorem isSome_greedy (hfront : ∀ c ∈ front, p c = true) (hnext : (next rest).isSome) :
    (greedy p next (front ++ rest)).isSome := by
  induction front with
  | nil =>
      rw [List.nil_append]
      cases rest with
      | nil => rw [greedy, Option.isSome_map, hnext]
      | cons c rest =>
          cases hfirst : (if p c then greedy p next rest else none) with
          | none => rw [greedy_cons_of_none hfirst, Option.isSome_map, hnext]
          | some found => rw [greedy, hfirst, Option.isSome_some]
  | cons c front ih =>
      obtain ⟨hp, hrest⟩ := List.forall_mem_cons.mp hfront
      obtain ⟨found, hfound⟩ := Option.isSome_iff_exists.mp (ih hrest)
      rw [List.cons_append, greedy_cons_of_some hp hfound, Option.isSome_some]

/-- No other division has a longer part in front. -/
theorem length_le_of_greedy (hmatch : greedy p next (front ++ rest) = some (taken, result))
    (hfront : ∀ c ∈ front, p c = true) (hnext : (next rest).isSome) :
    front.length ≤ taken.length := by
  induction front generalizing taken with
  | nil => exact Nat.zero_le _
  | cons c front ih =>
      obtain ⟨hp, hrest⟩ := List.forall_mem_cons.mp hfront
      rcases greedy_cons_cases hmatch with ⟨-, more, rfl, hmore⟩ | ⟨-, -, hnone⟩
      · exact Nat.succ_le_succ (ih hmore hrest)
      · have hsome := isSome_greedy hrest hnext
        cases (congrArg Option.isSome (hnone hp)).symm.trans hsome

/-- A repetition that takes something is one after its first element. -/
theorem greedyOne_cons_eq_some_iff {c : σ} :
    greedyOne p next (c :: text) = some (taken, result) ↔
      p c = true ∧ ∃ more, taken = c :: more ∧ greedy p next text = some (more, result) := by
  rw [greedyOne]
  by_cases hp : p c = true
  · rw [if_pos hp, Option.map_eq_some_iff]
    constructor
    · rintro ⟨found, hfound, heq⟩
      cases heq
      exact ⟨hp, found.1, rfl, hfound⟩
    · rintro ⟨-, more, rfl, hmore⟩
      exact ⟨(more, result), hmore, rfl⟩
  · rw [if_neg hp]
    exact iff_of_false nofun fun hboth => hp hboth.1

theorem exists_of_greedyOne (hmatch : greedyOne p next text = some (taken, result)) :
    taken ≠ [] ∧ ∃ rest, text = taken ++ rest ∧ (∀ c ∈ taken, p c = true) ∧
      next rest = some result := by
  cases text with
  | nil => cases hmatch
  | cons c text =>
      obtain ⟨hp, more, rfl, hmore⟩ := greedyOne_cons_eq_some_iff.mp hmatch
      obtain ⟨rest, htext, hall, hnext⟩ := exists_of_greedy hmore
      refine ⟨List.cons_ne_nil _ _, rest, by rw [htext, List.cons_append], ?_, hnext⟩
      exact List.forall_mem_cons.mpr ⟨hp, hall⟩

theorem isSome_greedyOne (hne : front ≠ []) (hfront : ∀ c ∈ front, p c = true)
    (hnext : (next rest).isSome) : (greedyOne p next (front ++ rest)).isSome := by
  cases front with
  | nil => exact absurd rfl hne
  | cons c front =>
      obtain ⟨hp, hrest⟩ := List.forall_mem_cons.mp hfront
      obtain ⟨found, hfound⟩ := Option.isSome_iff_exists.mp (isSome_greedy hrest hnext)
      rw [List.cons_append, greedyOne_cons_eq_some_iff.mpr ⟨hp, found.1, rfl, hfound⟩,
        Option.isSome_some]

theorem length_le_of_greedyOne
    (hmatch : greedyOne p next (front ++ rest) = some (taken, result))
    (hfront : ∀ c ∈ front, p c = true) (hnext : (next rest).isSome) :
    front.length ≤ taken.length := by
  cases front with
  | nil => exact Nat.zero_le _
  | cons c front =>
      obtain ⟨-, more, rfl, hmore⟩ := greedyOne_cons_eq_some_iff.mp hmatch
      obtain ⟨-, hrest⟩ := List.forall_mem_cons.mp hfront
      exact Nat.succ_le_succ (length_le_of_greedy hmore hrest hnext)

end Repetition

/-! ## Elements and searches -/

theorem after_eq_some_iff [DecidableEq σ] {c : σ} {next : List σ → Option α} {text : List σ}
    {result : α} :
    after c next text = some result ↔ ∃ rest, text = c :: rest ∧ next rest = some result := by
  cases text with
  | nil => exact iff_of_false nofun (by rintro ⟨rest, heq, -⟩; cases heq)
  | cons d text =>
      rw [after]
      by_cases heq : d = c
      · rw [if_pos heq, heq]
        constructor
        · exact fun hnext => ⟨text, rfl, hnext⟩
        · rintro ⟨rest, hcons, hnext⟩
          cases hcons
          exact hnext
      · rw [if_neg heq]
        refine iff_of_false nofun ?_
        rintro ⟨rest, hcons, -⟩
        cases hcons
        exact heq rfl

section Search

variable {found : List σ → Option α} {before rest text : List σ} {result : α}

/-- A search gives the first match. -/
theorem exists_of_search (hsearch : search found text = some result) :
    ∃ before rest, text = before ++ rest ∧ found rest = some result ∧
      ∀ early late, text = early ++ late → early.length < before.length → found late = none := by
  induction text with
  | nil => exact ⟨[], [], rfl, hsearch, fun early late _ hlt => nomatch hlt⟩
  | cons c text ih =>
      rw [search] at hsearch
      cases hfirst : found (c :: text) with
      | some first =>
          rw [hfirst] at hsearch
          cases hsearch
          exact ⟨[], c :: text, rfl, hfirst, fun early late _ hlt => nomatch hlt⟩
      | none =>
          rw [hfirst] at hsearch
          obtain ⟨before, rest, htext, hfound, hleft⟩ := ih hsearch
          refine ⟨c :: before, rest, by rw [htext, List.cons_append], hfound, ?_⟩
          intro early late heq hlt
          cases early with
          | nil =>
              rw [List.nil_append] at heq
              rw [← heq, hfirst]
          | cons d early =>
              rw [List.cons_append, List.cons.injEq] at heq
              exact hleft early late heq.2 (Nat.lt_of_succ_lt_succ hlt)

/-- A search finds something where there is a match at all. -/
theorem isSome_search (hfound : (found rest).isSome) : (search found (before ++ rest)).isSome := by
  induction before with
  | nil =>
      rw [List.nil_append]
      cases rest with
      | nil => exact hfound
      | cons c rest =>
          obtain ⟨first, hfirst⟩ := Option.isSome_iff_exists.mp hfound
          rw [search, hfirst, Option.isSome_some]
  | cons c before ih =>
      rw [List.cons_append, search]
      cases hfirst : found (c :: (before ++ rest)) with
      | some first => rfl
      | none => exact ih

end Search

end GreedyMatch
