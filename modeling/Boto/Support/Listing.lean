import Mathlib.Data.List.Basic
import Mathlib.Data.Nat.Notation
import Mathlib.Tactic.Common

/-!
# Listings that are read page by page

A listing gives what comes after a marker, and each of its entries has a marker
after which the listing goes on.  Entries that are sorted by their markers are one.
-/

/-- What is listed after each marker, where the entries have markers. -/
structure Listing {μ α : Type} (marker : α → μ) where
  after : μ → List α
  resumes : ∀ (m : μ) (before : List α) (entry : α) (rest : List α),
    after m = before ++ entry :: rest → after (marker entry) = rest

namespace Listing

variable {μ α : Type} {marker : α → μ}

/-- After the last entry of a page comes the rest of the listing. -/
theorem after_last (listing : Listing marker) {m : μ} {size : ℕ} {last : α}
    (hlast : ((listing.after m).take size).getLast? = some last) :
    listing.after (marker last) = (listing.after m).drop size := by
  obtain ⟨before, hpage⟩ := List.getLast?_eq_some_iff.mp hlast
  apply listing.resumes m before
  calc
    listing.after m =
        (listing.after m).take size ++ (listing.after m).drop size :=
      (List.take_append_drop size _).symm
    _ = before ++ last :: (listing.after m).drop size := by
      rw [hpage, List.append_assoc, List.singleton_append]

/-- Entries in the order of their markers, where those after a marker are listed. -/
def ofSorted (before : μ → μ → Bool)
    (htrans : ∀ a b c, before a b = true → before b c = true → before a c = true)
    (hirrefl : ∀ a, before a a = false) (entries : List α)
    (hsorted : entries.Pairwise fun a b => before (marker a) (marker b) = true) :
    Listing marker where
  after m := entries.filter fun entry => before m (marker entry)
  resumes := by
    intro m first entry rest hafter
    have hentry : entry ∈ entries.filter fun entry => before m (marker entry) := by
      rw [hafter]
      simp
    have hm : before m (marker entry) = true := (List.mem_filter.mp hentry).2
    have hfilter : entries.filter (fun e => before (marker entry) (marker e)) =
        (entries.filter fun e => before m (marker e)).filter
          fun e => before (marker entry) (marker e) := by
      rw [List.filter_filter]
      apply List.filter_congr
      intro e _
      cases he : before (marker entry) (marker e) with
      | false => rfl
      | true => rw [htrans _ _ _ hm he, Bool.and_self]
    have hpairwise := hsorted.filter fun e => before m (marker e)
    rw [hafter, List.pairwise_append, List.pairwise_cons] at hpairwise
    obtain ⟨-, ⟨hrest, -⟩, hfirst⟩ := hpairwise
    have hfirst' : first.filter (fun e => before (marker entry) (marker e)) = [] := by
      rw [List.filter_eq_nil_iff]
      intro e he hbefore
      have hself := htrans _ _ _ (hfirst e he entry List.mem_cons_self) hbefore
      rw [hirrefl] at hself
      cases hself
    have hrest' : rest.filter (fun e => before (marker entry) (marker e)) = rest :=
      List.filter_eq_self.mpr hrest
    rw [hfilter, hafter, List.filter_append, hfirst', List.nil_append,
      List.filter_cons_of_neg (by simp [hirrefl]), hrest']

end Listing
