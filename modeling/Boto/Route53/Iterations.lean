import Boto.Route53.ResourceRecordSets
import Mathlib.Data.List.Forall2
import Mathlib.Tactic.Common

/-!
# Iterating resource record sets again and again

An iteration that is abandoned behind the first response leaves the set as if it were not
truncated, so that later iterations stop after the first response.
-/

namespace Boto.Route53

variable {ρ : Type}

namespace ResourceRecordSets

/-! ## The zone -/

/-- The records behind those of a set. -/
def behind (rest : RecordStart → List ρ) (rrsets : ResourceRecordSets ρ) : List ρ :=
  if rrsets.isTruncated then rest rrsets.next else []

/-- The records that a set stands for. -/
def all (rest : RecordStart → List ρ) (rrsets : ResourceRecordSets ρ) : List ρ :=
  rrsets.records ++ rrsets.behind rest

/-- A service splits the records from every start into pages, of which only one without any
more records can be empty. -/
structure Serves (service : RRSetsService ρ) (rest : RecordStart → List ρ) : Prop where
  complete : ∀ n start, (ofResponse (service n start)).all rest = rest start
  nonempty : ∀ n start, (ofResponse (service n start)).records = [] → rest start = []

/-- What is taken of some records. -/
def wanted (taken : Option ℕ) (records : List ρ) : List ρ :=
  match taken with
  | none => records
  | some taken => records.take taken

/-- What an iteration must do: it yields the records that are taken, and ends only at their
end. -/
def Right (records : List ρ) (taken : Option ℕ) (iterated : Iterated ρ) : Prop :=
  iterated.yielded = wanted taken records ∧
    (iterated.ended = true → iterated.yielded = records)

/-- An iteration is abandoned behind the first response. -/
def AbandonedBehind (rest : RecordStart → List ρ) (rrsets : ResourceRecordSets ρ) :
    Option ℕ → Prop
  | none => False
  | some taken => rrsets.records.length < taken ∧ taken ≤ (rrsets.all rest).length

instance (rest : RecordStart → List ρ) (rrsets : ResourceRecordSets ρ) :
    DecidablePred (rrsets.AbandonedBehind rest)
  | none => isFalse id
  | some _ => inferInstanceAs (Decidable (_ ∧ _))

/-- An iteration goes on behind the first response. -/
def GoesBehind (rrsets : ResourceRecordSets ρ) : Option ℕ → Prop
  | none => True
  | some taken => rrsets.records.length < taken

/-- The set with its flag cleared. -/
def cleared (rrsets : ResourceRecordSets ρ) : ResourceRecordSets ρ :=
  { rrsets with isTruncated := false }

instance (rrsets : ResourceRecordSets ρ) : DecidablePred rrsets.GoesBehind
  | none => isTrue trivial
  | some _ => inferInstanceAs (Decidable (_ < _))

variable {service : RRSetsService ρ} {rest : RecordStart → List ρ}
  {rrsets : ResourceRecordSets ρ} {taken : Option ℕ}

/-! ## One iteration -/

theorem wanted_append_of_le {n : ℕ} {records later : List ρ} (hle : n ≤ records.length) :
    wanted (some n) (records ++ later) = records.take n := by
  rw [wanted, List.take_append_of_le_length hle]

theorem wanted_append_of_lt {records later : List ρ}
    (hlt : ∀ n, taken = some n → records.length < n) :
    wanted taken (records ++ later) =
      records ++ wanted (taken.map fun taken => taken - records.length) later := by
  cases taken with
  | none => rfl
  | some n =>
      have hle := Nat.le_of_lt (hlt n rfl)
      change (records ++ later).take n = records ++ later.take (n - records.length)
      rw [List.take_append, List.take_of_length_le hle]

theorem wanted_of_lt {records : List ρ} (hlt : ∀ n, taken = some n → records.length < n) :
    wanted taken records = records := by
  have happend := @wanted_append_of_lt _ taken records [] hlt
  rw [List.append_nil] at happend
  rw [happend]
  cases taken with
  | none => exact List.append_nil _
  | some n => exact (congrArg _ List.take_nil).trans (List.append_nil _)

theorem all_decide_of_lt {length : ℕ} (hlt : ∀ n, taken = some n → length < n) :
    (taken.all fun taken => decide (length < taken)) = true := by
  cases taken with
  | none => rfl
  | some n => exact decide_eq_true (hlt n rfl)

/-- What an iteration comes to: its yields, its end, and the set after it, which is the same
unless it was abandoned behind the first response. -/
structure Comes (rest : RecordStart → List ρ) (rrsets : ResourceRecordSets ρ)
    (taken : Option ℕ) (iterated : Iterated ρ) : Prop where
  yielded : iterated.yielded = wanted taken (rrsets.all rest)
  ended : iterated.ended = taken.all fun taken => decide ((rrsets.all rest).length < taken)
  after : iterated.rrsets = rrsets ∨ iterated.rrsets = rrsets.cleared
  abandoned : rrsets.behind rest ≠ [] →
    iterated.rrsets = if rrsets.AbandonedBehind rest taken then rrsets.cleared else rrsets

theorem comes_of_le {n calls : ℕ} (hle : n ≤ rrsets.records.length) :
    Comes rest rrsets (some n)
      { yielded := rrsets.records.take n, ended := false, rrsets := rrsets, calls := calls } where
  yielded := (wanted_append_of_le hle).symm
  ended := by
    refine (decide_eq_false ?_).symm
    rw [all, List.length_append]
    omega
  after := .inl rfl
  abandoned _ := (if_neg fun habandoned => Nat.not_lt.mpr hle habandoned.1).symm

/-- Without anything behind it, a set is iterated to its end. -/
theorem comes_of_nothing_behind {calls : ℕ} {after : ResourceRecordSets ρ}
    (hlt : ∀ n, taken = some n → rrsets.records.length < n) (hbehind : rrsets.behind rest = [])
    (hafter : after = rrsets ∨ after = rrsets.cleared) :
    Comes rest rrsets taken
      { yielded := rrsets.records, ended := true, rrsets := after, calls := calls } where
  yielded := by
    rw [all, hbehind, List.append_nil, wanted_of_lt hlt]
  ended := by
    rw [all, hbehind, List.append_nil, all_decide_of_lt hlt]
  after := hafter
  abandoned hne := absurd hbehind hne

/-- An iteration of a set goes on with the iteration of the next response. -/
theorem comes_of_next {results : ResourceRecordSets ρ} {later : Iterated ρ}
    (hlt : ∀ n, taken = some n → rrsets.records.length < n)
    (htruncated : rrsets.isTruncated = true) (hresults : results.all rest = rrsets.behind rest)
    (hlater : Comes rest results (taken.map fun taken => taken - rrsets.records.length) later) :
    Comes rest rrsets taken {
      yielded := rrsets.records ++ later.yielded
      ended := later.ended
      rrsets := if later.ended then { rrsets.cleared with isTruncated := true }
        else rrsets.cleared
      calls := later.calls } := by
  have hsame : { rrsets.cleared with isTruncated := true } = rrsets := by
    rw [← htruncated]
    rfl
  have hended : later.ended = taken.all fun taken => decide ((rrsets.all rest).length < taken) := by
    rw [hlater.ended, hresults, all]
    cases taken with
    | none => rfl
    | some n =>
        have hn := hlt n rfl
        refine decide_eq_decide.mpr ?_
        rw [List.length_append]
        dsimp only
        omega
  rw [hsame]
  refine ⟨?_, hended, ?_, fun _ => ?_⟩
  · dsimp only
    rw [hlater.yielded, hresults, all, wanted_append_of_lt hlt]
  · dsimp only
    split
    · exact .inl rfl
    · exact .inr rfl
  · dsimp only
    rw [hended]
    cases taken with
    | none => rfl
    | some n =>
        have hn := hlt n rfl
        by_cases hall : (rrsets.all rest).length < n
        · have hnot : ¬rrsets.AbandonedBehind rest (some n) := fun habandoned =>
            Nat.not_lt.mpr habandoned.2 hall
          rw [if_neg hnot]
          exact if_pos (decide_eq_true hall)
        · have habandoned : rrsets.AbandonedBehind rest (some n) := ⟨hn, Nat.not_lt.mp hall⟩
          rw [if_pos habandoned]
          exact if_neg (by simpa using hall)

/-- An iteration yields what is taken of the records of its set. -/
theorem exists_iter (hserves : Serves service rest) {fuel : ℕ} (calls : ℕ)
    (hfuel : (rrsets.behind rest).length < fuel) :
    ∃ iterated, iter service fuel rrsets calls taken = some iterated ∧
      Comes rest rrsets taken iterated := by
  induction fuel generalizing rrsets calls taken with
  | zero => exact absurd hfuel (Nat.not_lt_zero _)
  | succ fuel ih =>
      by_cases hfirst : ∃ n, taken = some n ∧ n ≤ rrsets.records.length
      · obtain ⟨n, rfl, hle⟩ := hfirst
        refine ⟨_, if_pos (decide_eq_true hle), comes_of_le hle⟩
      · have hlt : ∀ n, taken = some n → rrsets.records.length < n := fun n hn =>
          Nat.not_le.mp fun hle => hfirst ⟨n, hn, hle⟩
        have hany : ¬(taken.any fun taken => decide (taken ≤ rrsets.records.length)) = true := by
          cases taken with
          | none => simp
          | some n => simpa using hlt n rfl
        rw [iter, if_neg hany]
        by_cases htruncated : rrsets.isTruncated = true
        · rw [if_pos htruncated]
          have hbehind : rrsets.behind rest = rest rrsets.next := if_pos htruncated
          have hcomplete := hserves.complete calls rrsets.next
          by_cases hempty : (ofResponse (service calls rrsets.next)).records = []
          · refine ⟨_, if_pos hempty, comes_of_nothing_behind hlt ?_ (.inr rfl)⟩
            rw [hbehind, hserves.nonempty calls _ hempty]
          · have hshorter : ((ofResponse (service calls rrsets.next)).behind rest).length <
                fuel := by
              have hlength := congrArg List.length hcomplete
              rw [all, List.length_append, ← hbehind] at hlength
              have hpos := List.length_pos_iff.mpr hempty
              omega
            obtain ⟨later, hiter, hlater⟩ := ih (calls + 1) hshorter
            refine ⟨_, (if_neg hempty).trans ?_,
              comes_of_next hlt htruncated (hcomplete.trans hbehind.symm) hlater⟩
            rw [show ({ rrsets with isTruncated := false } : ResourceRecordSets ρ).next =
              rrsets.next from rfl, hiter, htruncated]
            rfl
        · rw [if_neg htruncated]
          have hbehind : rrsets.behind rest = [] := if_neg htruncated
          exact ⟨_, rfl, comes_of_nothing_behind hlt hbehind (.inl rfl)⟩

theorem Comes.right {iterated : Iterated ρ} (hcomes : Comes rest rrsets taken iterated) :
    Right (rrsets.all rest) taken iterated := by
  refine ⟨hcomes.yielded, fun hended => ?_⟩
  rw [hcomes.ended] at hended
  rw [hcomes.yielded, wanted_of_lt]
  rintro n rfl
  exact of_decide_eq_true hended

/-! ## Many iterations -/

/-- An iteration of the cleared set is right exactly if it does not go behind the first
response. -/
theorem right_cleared_iff {iterated : Iterated ρ} (hbehind : rrsets.behind rest ≠ [])
    (hcomes : Comes rest rrsets.cleared taken iterated) :
    Right (rrsets.all rest) taken iterated ↔ ¬rrsets.GoesBehind taken := by
  have hrecords : rrsets.cleared.all rest = rrsets.records := List.append_nil _
  have hyielded := hcomes.yielded
  have hended := hcomes.ended
  rw [hrecords] at hyielded hended
  have hpos := List.length_pos_iff.mpr hbehind
  have hlonger : rrsets.records ≠ rrsets.all rest := by
    intro heq
    have hlength := congrArg List.length heq
    rw [all, List.length_append] at hlength
    omega
  constructor
  · rintro ⟨hright, hend⟩ hgoes
    have hlt : ∀ n, taken = some n → rrsets.records.length < n := by
      rintro n rfl
      exact hgoes
    rw [all_decide_of_lt hlt] at hended
    rw [wanted_of_lt hlt] at hyielded
    exact hlonger (hyielded.symm.trans (hend hended))
  · intro hnot
    cases taken with
    | none => exact absurd trivial hnot
    | some n =>
        have hle : n ≤ rrsets.records.length := Nat.not_lt.mp hnot
        refine ⟨?_, fun hend => ?_⟩
        · rw [hyielded, all, wanted_append_of_le hle]
          rfl
        · rw [hended] at hend
          exact absurd (of_decide_eq_true hend) hnot

theorem iterations_cons {fuel calls : ℕ} {iterated : Iterated ρ} {later : List (Option ℕ)}
    {its : List (Iterated ρ)} (hiter : iter service fuel rrsets calls taken = some iterated)
    (hlater : iterations service fuel iterated.rrsets iterated.calls later = some its) :
    iterations service fuel rrsets calls (taken :: later) = some (iterated :: its) := by
  rw [iterations, hiter]
  exact congrArg (Option.bind · _) hlater

/-- Without anything behind the first response, all iterations are right. -/
theorem exists_iterations_of_nothing_behind (hserves : Serves service rest) {fuel : ℕ}
    (hfuel : 0 < fuel) (takens : List (Option ℕ)) (calls : ℕ)
    (hbehind : rrsets.behind rest = []) :
    ∃ its, iterations service fuel rrsets calls takens = some its ∧
      List.Forall₂ (Right rrsets.records) takens its := by
  induction takens generalizing rrsets calls with
  | nil => exact ⟨[], rfl, .nil⟩
  | cons taken takens ih =>
      have hlength : (rrsets.behind rest).length < fuel := by
        rw [hbehind]
        exact hfuel
      obtain ⟨iterated, hiter, hcomes⟩ := @exists_iter _ _ _ rrsets taken hserves _ calls hlength
      have hright : Right rrsets.records taken iterated := by
        have hall : rrsets.all rest = rrsets.records := by
          rw [all, hbehind, List.append_nil]
        exact hall ▸ hcomes.right
      have hafter : iterated.rrsets.behind rest = [] ∧
          iterated.rrsets.records = rrsets.records := by
        rcases hcomes.after with hafter | hafter
        · rw [hafter]
          exact ⟨hbehind, rfl⟩
        · rw [hafter]
          exact ⟨rfl, rfl⟩
      obtain ⟨its, hits, hrest⟩ := ih iterated.calls hafter.1
      refine ⟨iterated :: its, iterations_cons hiter hits, .cons hright ?_⟩
      rw [hafter.2] at hrest
      exact hrest

/-- After the flag was cleared, all iterations are right exactly if none goes behind the first
response. -/
theorem exists_iterations_cleared (hserves : Serves service rest) {fuel : ℕ}
    (hfuel : 0 < fuel) (hbehind : rrsets.behind rest ≠ []) (takens : List (Option ℕ))
    (calls : ℕ) :
    ∃ its, iterations service fuel rrsets.cleared calls takens = some its ∧
      (List.Forall₂ (Right (rrsets.all rest)) takens its ↔
        ∀ taken ∈ takens, ¬rrsets.GoesBehind taken) := by
  induction takens generalizing calls with
  | nil => exact ⟨[], rfl, iff_of_true .nil (by simp)⟩
  | cons taken takens ih =>
      obtain ⟨iterated, hiter, hcomes⟩ :=
        @exists_iter _ _ _ rrsets.cleared taken hserves _ calls hfuel
      have hafter : iterated.rrsets = rrsets.cleared := by
        rcases hcomes.after with hafter | hafter <;> exact hafter
      obtain ⟨its, hits, hiff⟩ := ih iterated.calls
      refine ⟨iterated :: its, iterations_cons hiter (hafter ▸ hits), ?_⟩
      rw [List.forall₂_cons, hiff, right_cleared_iff hbehind hcomes, List.forall_mem_cons]

/-- All iterations are right exactly if none goes behind the first response after one that
was abandoned there. -/
theorem exists_iterations (hserves : Serves service rest) {fuel : ℕ}
    (hfuel : (rrsets.behind rest).length < fuel) (hbehind : rrsets.behind rest ≠ [])
    (takens : List (Option ℕ)) (calls : ℕ) :
    ∃ its, iterations service fuel rrsets calls takens = some its ∧
      (List.Forall₂ (Right (rrsets.all rest)) takens its ↔
        takens.Pairwise fun taken later =>
          rrsets.AbandonedBehind rest taken → ¬rrsets.GoesBehind later) := by
  induction takens generalizing calls with
  | nil => exact ⟨[], rfl, iff_of_true .nil .nil⟩
  | cons taken takens ih =>
      obtain ⟨iterated, hiter, hcomes⟩ := @exists_iter _ _ _ rrsets taken hserves _ calls hfuel
      have hafter := hcomes.abandoned hbehind
      have hright := hcomes.right
      by_cases habandoned : rrsets.AbandonedBehind rest taken
      · rw [if_pos habandoned] at hafter
        obtain ⟨its, hits, hiff⟩ := exists_iterations_cleared hserves
          (Nat.zero_lt_of_lt hfuel) hbehind takens iterated.calls
        refine ⟨iterated :: its, iterations_cons hiter (hafter ▸ hits), ?_⟩
        rw [List.forall₂_cons, hiff, and_iff_right hright, List.pairwise_cons]
        refine ⟨fun hnone => ⟨fun later hlater _ => hnone later hlater, ?_⟩,
          fun hpairwise later hlater => hpairwise.1 later hlater habandoned⟩
        exact List.pairwise_of_forall_mem_list fun _ _ later hlater _ => hnone later hlater
      · rw [if_neg habandoned] at hafter
        obtain ⟨its, hits, hiff⟩ := ih iterated.calls
        refine ⟨iterated :: its, iterations_cons hiter (hafter ▸ hits), ?_⟩
        rw [List.forall₂_cons, hiff, and_iff_right hright, List.pairwise_cons]
        exact (and_iff_right fun later _ habandoned' => absurd habandoned' habandoned).symm

theorem not_abandonedBehind (hbehind : rrsets.behind rest = []) :
    ¬rrsets.AbandonedBehind rest taken := by
  intro habandoned
  cases taken with
  | none => exact habandoned
  | some n =>
      have hle := habandoned.2
      rw [all, hbehind, List.append_nil] at hle
      exact Nat.not_le.mpr habandoned.1 hle

/-- The iterations of a set that was read from a service are all right exactly if none goes
behind the first response after one that was abandoned there. -/
theorem iterations_right_iff (hserves : Serves service rest) (start : RecordStart) {fuel : ℕ}
    (hfuel : (rest start).length < fuel) (calls : ℕ) (takens : List (Option ℕ)) :
    let rrsets := ofResponse (service calls start)
    ∃ its, iterations service fuel rrsets (calls + 1) takens = some its ∧
      (List.Forall₂ (Right (rest start)) takens its ↔
        takens.Pairwise fun taken later =>
          rrsets.AbandonedBehind rest taken → ¬rrsets.GoesBehind later) := by
  dsimp only
  have hcomplete := hserves.complete calls start
  by_cases hbehind : (ofResponse (service calls start)).behind rest = []
  · obtain ⟨its, hits, hall⟩ := exists_iterations_of_nothing_behind hserves
      (Nat.zero_lt_of_lt hfuel) takens (calls + 1) hbehind
    have hrecords : (ofResponse (service calls start)).records = rest start := by
      rw [← hcomplete, all, hbehind, List.append_nil]
    rw [hrecords] at hall
    refine ⟨its, hits, iff_of_true hall ?_⟩
    refine List.pairwise_of_forall fun taken later habandoned => ?_
    exact absurd habandoned (not_abandonedBehind hbehind)
  · have hlength : ((ofResponse (service calls start)).behind rest).length < fuel := by
      have hlength := congrArg List.length hcomplete
      rw [all, List.length_append] at hlength
      omega
    obtain ⟨its, hits, hiff⟩ := exists_iterations hserves hlength hbehind takens (calls + 1)
    rw [hcomplete] at hiff
    exact ⟨its, hits, hiff⟩

/-- How many records come before a start, whose names are as long as that. -/
def position (start : RecordStart) : ℕ := (start.name.getD []).length

/-- A service with one record on each page. -/
def onePerPage (xs : List ρ) : RRSetsService ρ := fun _ start => {
  records := (xs.drop (position start)).take 1
  elements :=
    if position start + 1 < xs.length then
      [("IsTruncated".toList, "true".toList),
        ("NextRecordName".toList, List.replicate (position start + 1) 'x')]
    else [("IsTruncated".toList, "false".toList)] }

theorem onePerPage_serves (xs : List ρ) :
    Serves (onePerPage xs) fun start => xs.drop (position start) where
  complete n start := by
    rw [onePerPage]
    by_cases hmore : position start + 1 < xs.length
    · rw [if_pos hmore]
      change (xs.drop (position start)).take 1 ++
        xs.drop (List.replicate (position start + 1) 'x').length = _
      rw [List.length_replicate, ← List.drop_drop, List.take_append_drop]
    · rw [if_neg hmore]
      change (xs.drop (position start)).take 1 ++ [] = _
      rw [List.append_nil, List.take_of_length_le]
      rw [List.length_drop]
      omega
  nonempty n start hempty := by
    have hrecords : (xs.drop (position start)).take 1 = [] := by
      rw [onePerPage] at hempty
      by_cases hmore : position start + 1 < xs.length
      · rw [if_pos hmore] at hempty
        exact hempty
      · rw [if_neg hmore] at hempty
        exact hempty
    rcases List.take_eq_nil_iff.mp hrecords with hone | hnil
    · cases hone
    · exact hnil

/-- The first record of a zone. -/
def firstStart : RecordStart := ⟨none, none, none⟩

theorem iterations_right_three : ∃ its,
    iterations (onePerPage [1, 2, 3]) 4 (ofResponse (onePerPage [1, 2, 3] 0 firstStart)) (0 + 1)
      [some 1, none, some 2] = some its ∧
      List.Forall₂ (Right [1, 2, 3]) [some 1, none, some 2] its := by
  obtain ⟨its, hits, hiff⟩ := iterations_right_iff (onePerPage_serves [1, 2, 3]) firstStart
    (show (List.drop (position firstStart) [1, 2, 3]).length < 4 by decide) 0
    [some 1, none, some 2]
  exact ⟨its, hits, hiff.mpr (by decide +kernel)⟩

/-- After an iteration was abandoned at the second record, the next one yields only the
first. -/
theorem iterations_not_right : ¬∀ its,
    iterations (onePerPage [1, 2, 3]) 4 (ofResponse (onePerPage [1, 2, 3] 0 firstStart)) (0 + 1)
      [some 2, none] = some its → List.Forall₂ (Right [1, 2, 3]) [some 2, none] its := by
  intro hclaim
  obtain ⟨its, hits, hiff⟩ := iterations_right_iff (onePerPage_serves [1, 2, 3]) firstStart
    (show (List.drop (position firstStart) [1, 2, 3]).length < 4 by decide) 0 [some 2, none]
  have hpairwise := hiff.mp (hclaim its hits)
  have habandoned : (ofResponse (onePerPage [1, 2, 3] 0 firstStart)).AbandonedBehind
      (fun start => [1, 2, 3].drop (position start)) (some 2) := by decide +kernel
  exact (List.pairwise_cons.mp hpairwise).1 none List.mem_cons_self habandoned trivial

end ResourceRecordSets

end Boto.Route53
