import Mathlib.Data.List.Perm.Basic
import Boto.DynamoDB2.ResultSet

/-!
# The keys of a batch get

A service answers some of the keys of a request and gives the others back as
unprocessed.  `BatchGetResultSet` puts these in front of the keys that are left,
except after an answer without any result: that answer is left before they are
put back, and their keys are lost.
-/

namespace Boto.DynamoDB2

variable {ι κ : Type}

/-- The keys of the items that a list of answers gave. -/
def answered (keyOf : ι → κ) (fetched : List (BatchFetch ι κ)) : List κ :=
  fetched.flatMap fun fetch => fetch.page.results.map keyOf

/-- Each key of a request is answered or given back. -/
def Answers (keyOf : ι → κ) (serve : ℕ → List κ → BatchPage ι κ) : Prop :=
  ∀ n keys, ((serve n keys).results.map keyOf ++
    (serve n keys).unprocessedKeys).Perm keys

/-- No fetch of a run loses a key, and a run that ends has answered each of them. -/
structure LosesNoKey (keyOf : ι → κ) (keys : List κ) (maxBatchGet : ℕ)
    (outs : List (Option ι)) (fetched : List (BatchFetch ι κ))
    (keysLeft : List κ) : Prop where
  size : ∀ fetch ∈ fetched, fetch.keys.length ≤ maxBatchGet
  conserved : ∀ before fetch after, fetched = before ++ fetch :: after →
    keys.Perm (answered keyOf (before ++ [fetch]) ++ fetch.left)
  ended : none ∈ outs → keysLeft = []
  yielded : none ∈ outs → keys.Perm ((outs.filterMap id).map keyOf)

namespace BatchGetResultSet

variable {keyOf : ι → κ} {serve : ℕ → List κ → BatchPage ι κ}
variable {keys : List κ} {maxBatchGet : ℕ}

theorem insertIdx_length_append (before left : List κ) (key : κ) :
    (before ++ left).insertIdx before.length key = before ++ key :: left := by
  induction before with
  | nil => rfl
  | cons _ before ih => simp [ih]

/-- The unprocessed keys come in front of the ones that are left. -/
theorem insertAll_eq (put left before : List κ) :
    insertAll before.length put (before ++ left) = before ++ put ++ left := by
  induction put generalizing before left with
  | nil => simp [insertAll]
  | cons key put ih =>
      have hinsert : (before ++ left).insertIdx before.length key =
          (before ++ [key]) ++ left := by
        simp [insertIdx_length_append]
      have hlength : before.length + 1 = (before ++ [key]).length := by simp
      rw [insertAll, hinsert, hlength, ih]
      simp

theorem insertAll_zero (put left : List κ) : insertAll 0 put left = put ++ left :=
  insertAll_eq put left []

/-! ## The requests -/

/-- The request made with the given number when the given keys are left. -/
def fetch (serve : ℕ → List κ → BatchPage ι κ) (maxBatchGet n : ℕ)
    (left : List κ) : BatchFetch ι κ :=
  let page := serve n (left.take maxBatchGet)
  { keys := left.take maxBatchGet
    page := page
    left :=
      if page.results.isEmpty then left.drop maxBatchGet
      else page.unprocessedKeys ++ left.drop maxBatchGet }

variable (serve keys maxBatchGet) in
/-- The keys left after some requests. -/
def leftAfter : ℕ → List κ
  | 0 => keys
  | n + 1 => (fetch serve maxBatchGet n (leftAfter n)).left

variable (serve keys maxBatchGet) in
/-- The first requests. -/
def fetches : ℕ → List (BatchFetch ι κ)
  | 0 => []
  | n + 1 => fetches n ++
      [fetch serve maxBatchGet n (leftAfter serve keys maxBatchGet n)]

@[simp] theorem length_fetches (n : ℕ) :
    (fetches serve keys maxBatchGet n).length = n := by
  induction n with
  | zero => rfl
  | succ n ih => simp [fetches, ih]

@[simp] theorem answered_append (before after : List (BatchFetch ι κ)) :
    answered keyOf (before ++ after) =
      answered keyOf before ++ answered keyOf after :=
  List.flatMap_append

/-- A part of the requests that ends with one of them. -/
theorem fetches_split {n : ℕ} {before after : List (BatchFetch ι κ)}
    {last : BatchFetch ι κ}
    (hsplit : fetches serve keys maxBatchGet n = before ++ last :: after) :
    before = fetches serve keys maxBatchGet before.length ∧
      last = fetch serve maxBatchGet before.length
        (leftAfter serve keys maxBatchGet before.length) ∧
      before.length < n := by
  induction n generalizing after with
  | zero => simp [fetches] at hsplit
  | succ n ih =>
      rw [fetches] at hsplit
      rcases List.eq_nil_or_concat after with rfl | ⟨after, fetch', rfl⟩
      · obtain ⟨hbefore, hlast⟩ := List.append_inj' hsplit rfl
        have hlength : before.length = n := by rw [← hbefore, length_fetches]
        rw [hlength, ← hbefore]
        simp only [List.cons.injEq, and_true] at hlast
        exact ⟨rfl, hlast.symm, Nat.lt_succ_self n⟩
      · rw [List.concat_eq_append, ← List.cons_append, ← List.append_assoc]
          at hsplit
        obtain ⟨hbefore, hlast⟩ := List.append_inj' hsplit rfl
        obtain ⟨hb, hl, hn⟩ := ih hbefore
        exact ⟨hb, hl, Nat.lt_succ_of_lt hn⟩

/-- Each request is followed by the later ones. -/
theorem fetches_of_lt (serve : ℕ → List κ → BatchPage ι κ) (keys : List κ)
    (maxBatchGet : ℕ) {m n : ℕ} (hlt : m < n) :
    ∃ after, fetches serve keys maxBatchGet n =
      fetches serve keys maxBatchGet m ++
        fetch serve maxBatchGet m (leftAfter serve keys maxBatchGet m) ::
          after := by
  induction n with
  | zero => omega
  | succ n ih =>
      rcases Nat.lt_succ_iff_lt_or_eq.mp hlt with hlt | rfl
      · obtain ⟨after, hafter⟩ := ih hlt
        rw [fetches, hafter]
        exact ⟨_, List.append_assoc _ _ _⟩
      · exact ⟨[], rfl⟩

/-- What was answered and what is left. -/
def accounted (keyOf : ι → κ) (serve : ℕ → List κ → BatchPage ι κ)
    (keys : List κ) (maxBatchGet n : ℕ) : List κ :=
  answered keyOf (fetches serve keys maxBatchGet n) ++
    leftAfter serve keys maxBatchGet n

/-- A request loses nothing if something was answered or nothing was asked. -/
theorem accounted_succ {n : ℕ} (hserve : Answers keyOf serve)
    (hsome : (leftAfter serve keys maxBatchGet n).take maxBatchGet ≠ [] →
      (serve n ((leftAfter serve keys maxBatchGet n).take
        maxBatchGet)).results ≠ []) :
    (accounted keyOf serve keys maxBatchGet (n + 1)).Perm
      (accounted keyOf serve keys maxBatchGet n) := by
  have hpage := hserve n ((leftAfter serve keys maxBatchGet n).take maxBatchGet)
  simp only [accounted, fetches, leftAfter, fetch, answered_append,
    List.append_assoc]
  apply List.Perm.append_left
  generalize leftAfter serve keys maxBatchGet n = left at *
  generalize serve n (left.take maxBatchGet) = page at *
  by_cases hnil : page.results = []
  · have htake : left.take maxBatchGet = [] := by
      by_contra hne
      exact hsome hne hnil
    have hdrop : left.drop maxBatchGet = left := by
      have hsplit := List.take_append_drop maxBatchGet left
      rwa [htake, List.nil_append] at hsplit
    simp only [answered, List.flatMap_singleton, hnil, List.map_nil,
      List.nil_append, List.isEmpty_nil, if_true, hdrop]
    exact List.Perm.refl left
  · have hempty : page.results.isEmpty = false := by simpa using hnil
    have hleft := hpage.append_right (left.drop maxBatchGet)
    rw [List.take_append_drop] at hleft
    simpa [answered, hempty] using hleft

/-- The keys of a request that nothing was answered of are lost. -/
theorem length_accounted_succ (keyOf : ι → κ) {n : ℕ}
    (hnil : (serve n ((leftAfter serve keys maxBatchGet n).take
        maxBatchGet)).results = []) :
    (accounted keyOf serve keys maxBatchGet (n + 1)).length +
        ((leftAfter serve keys maxBatchGet n).take maxBatchGet).length =
      (accounted keyOf serve keys maxBatchGet n).length := by
  simp [accounted, fetches, leftAfter, fetch, answered, hnil]
  omega

/-- The accounts are right for as long as each request is answered in part, and
only for so long. -/
theorem accounted_perm_iff (hserve : Answers keyOf serve) (n : ℕ) :
    (∀ m ≤ n, (accounted keyOf serve keys maxBatchGet m).Perm keys) ↔
      ∀ m < n, (leftAfter serve keys maxBatchGet m).take maxBatchGet ≠ [] →
        (serve m ((leftAfter serve keys maxBatchGet m).take
          maxBatchGet)).results ≠ [] := by
  constructor
  · intro hall m hm hasked hnil
    have hlost := length_accounted_succ keyOf hnil
    have hbefore := (hall m (Nat.le_of_lt hm)).length_eq
    have hafter := (hall (m + 1) hm).length_eq
    have hpos := List.length_pos_iff.mpr hasked
    omega
  · intro hsome m hm
    induction m with
    | zero => exact List.Perm.refl keys
    | succ m ih =>
        exact (accounted_succ hserve (hsome m hm)).trans
          (ih (Nat.le_of_succ_le hm))

/-! ## Iterating -/

/-- The result set has made the given number of requests. -/
structure Fetching (serve : ℕ → List κ → BatchPage ι κ) (keys : List κ)
    (maxBatchGet n : ℕ) (rs : BatchGetResultSet ι κ) : Prop where
  extra : rs.extra =
    { keysLeft := leftAfter serve keys maxBatchGet n
      maxBatchGet := maxBatchGet
      fetched := fetches serve keys maxBatchGet n }
  limit : rs.limit = none
  ended : rs.resultsLeft = false → leftAfter serve keys maxBatchGet n = []

/-- The items that a list of answers gave. -/
def items (fetched : List (BatchFetch ι κ)) : List ι :=
  fetched.flatMap fun fetch => fetch.page.results

theorem fetchMore_fetching {n : ℕ} {rs : BatchGetResultSet ι κ}
    (hrs : Fetching serve keys maxBatchGet n rs) :
    Fetching serve keys maxBatchGet (n + 1) (fetchMore serve rs) ∧
      (fetchMore serve rs).offset = 0 ∧
      items (fetches serve keys maxBatchGet (n + 1)) =
        items (fetches serve keys maxBatchGet n) ++
          (fetchMore serve rs).results := by
  obtain ⟨hextra, hlimit, hended⟩ := hrs
  simp only [fetchMore, insertAll_zero, hextra, length_fetches]
  cases hempty : (serve n ((leftAfter serve keys maxBatchGet n).take
      maxBatchGet)).results.isEmpty with
  | true =>
      refine ⟨⟨?_, hlimit, ?_⟩, rfl, ?_⟩
      · simp [leftAfter, fetches, fetch, hempty]
      · intro hflag
        simp only [leftAfter, fetch, hempty, if_true]
        cases hbefore : rs.resultsLeft with
        | false => simp [hended hbefore]
        | true => simpa [hbefore] using hflag
      · simpa [items, fetches, fetch] using hempty
  | false =>
      refine ⟨⟨?_, hlimit, ?_⟩, rfl, ?_⟩
      · simp [leftAfter, fetches, fetch, hempty]
      · intro hflag
        simp only [Bool.false_eq_true, if_false, Bool.or_eq_false_iff,
          Bool.not_eq_false', List.isEmpty_iff] at hflag
        simpa [leftAfter, fetch, hempty] using hflag.2
      · simp [items, fetches, fetch]

/-- What was given out and what the page at hand still has, from an offset on. -/
structure Holds (serve : ℕ → List κ → BatchPage ι κ) (keys : List κ)
    (maxBatchGet : ℕ) (given : List ι) (first : ℤ)
    (rs : BatchGetResultSet ι κ) : Prop where
  fetching : ∃ n, Fetching serve keys maxBatchGet n rs ∧
    given ++ rs.results.drop first.toNat =
      items (fetches serve keys maxBatchGet n)
  nonneg : 0 ≤ first

/-- Nothing is left to give out or to fetch. -/
def Exhausted (rs : BatchGetResultSet ι κ) : Prop :=
  rs.resultsLeft = false ∧ (rs.results.length : ℤ) ≤ rs.offset + 1

/-- The state between two calls of `__next__`. -/
structure Between (serve : ℕ → List κ → BatchPage ι κ) (keys : List κ)
    (maxBatchGet : ℕ) (outs : List (Option ι)) (rs : BatchGetResultSet ι κ) :
    Prop where
  holds : Holds serve keys maxBatchGet (outs.filterMap id) (rs.offset + 1) rs
  exhausted : none ∈ outs → Exhausted rs

theorem item_holds {given : List ι} {rs : BatchGetResultSet ι κ}
    (hrs : Holds serve keys maxBatchGet given rs.offset rs) :
    rs.item = (rs.results[rs.offset.toNat]?, rs) ∧
      Holds serve keys maxBatchGet
        (given ++ rs.results[rs.offset.toNat]?.toList)
        (rs.offset + 1) rs := by
  obtain ⟨⟨n, hfetching, hgiven⟩, hnonneg⟩ := hrs
  refine ⟨ResultSet.item_of_no_limit hfetching.limit hnonneg,
    ⟨n, hfetching, ?_⟩, by omega⟩
  have hsucc : (rs.offset + 1).toNat = rs.offset.toNat + 1 := by omega
  rw [hsucc, List.append_assoc, ← List.drop_eq_getElem?_toList_append, hgiven]

/-- A fetched page is at hand from its start on. -/
def Fetched (serve : ℕ → List κ → BatchPage ι κ) (keys : List κ)
    (maxBatchGet : ℕ) (given : List ι) (rs : BatchGetResultSet ι κ) : Prop :=
  Holds serve keys maxBatchGet given rs.offset rs ∧ rs.offset = 0

theorem fetchMore_fetched {given : List ι} {first : ℤ}
    {rs : BatchGetResultSet ι κ}
    (hrs : Holds serve keys maxBatchGet given first rs)
    (hover : (rs.results.length : ℤ) ≤ first) :
    Fetched serve keys maxBatchGet given (fetchMore serve rs) := by
  obtain ⟨⟨n, hfetching, hgiven⟩, hnonneg⟩ := hrs
  obtain ⟨hafter, hoffset, hitems⟩ := fetchMore_fetching hfetching
  rw [List.drop_eq_nil_of_le (by omega), List.append_nil] at hgiven
  refine ⟨⟨⟨n + 1, hafter, ?_⟩, by omega⟩, hoffset⟩
  rw [hitems, ← hgiven, hoffset]
  rfl

theorem next_between {fuel : ℕ} {outs : List (Option ι)} {out : Option ι}
    {rs after : BatchGetResultSet ι κ}
    (hrs : Between serve keys maxBatchGet outs rs)
    (hrun : ResultSet.next (fetchMore serve) fuel rs = some (out, after)) :
    Between serve keys maxBatchGet (outs ++ [out]) after := by
  have hfilter : (outs ++ [out]).filterMap id =
      outs.filterMap id ++ out.toList := by
    cases out <;> simp
  have hmoved : Holds serve keys maxBatchGet (outs.filterMap id)
      rs.moved.offset rs.moved := by
    obtain ⟨⟨n, hfetching, hgiven⟩, hnonneg⟩ := hrs.holds
    exact ⟨⟨n, ⟨hfetching.extra, hfetching.limit, hfetching.ended⟩, hgiven⟩,
      hnonneg⟩
  rcases ResultSet.next_cases hrun with ⟨hlt, hitem⟩ | ⟨hover, hleft, rfl, rfl⟩ |
    ⟨hover, hleft, mid, hloop, hitem⟩
  · obtain ⟨hget, hholds⟩ := item_holds hmoved
    rw [hget, Prod.mk.injEq] at hitem
    obtain ⟨rfl, rfl⟩ := hitem
    refine ⟨hfilter ▸ hholds, fun hmem => ?_⟩
    have hnonneg := hmoved.nonneg
    simp only [ResultSet.moved_offset, ResultSet.moved_results] at hnonneg hmem
    rw [List.getElem?_eq_getElem (by omega)] at hmem
    have hpast := hrs.exhausted (by simpa using hmem)
    exact absurd hpast.2 (by omega)
  · obtain ⟨hholds, hexhausted⟩ := hrs
    obtain ⟨⟨n, hfetching, hgiven⟩, hnonneg⟩ := hmoved
    refine ⟨⟨⟨n, hfetching, ?_⟩, ?_⟩, fun _ => ⟨hleft, ?_⟩⟩
    · rw [hfilter, ← hgiven]
      simp only [ResultSet.moved_offset, ResultSet.moved_results] at *
      rw [List.drop_eq_nil_of_le (by omega), List.drop_eq_nil_of_le (by omega)]
      simp
    · simp only [ResultSet.moved_offset] at *
      omega
    · simp only [ResultSet.moved_offset, ResultSet.moved_results]
      omega
  · have hfetched := fetchMore_fetched hmoved (by simpa using hover)
    obtain ⟨⟨hmid, hoffset⟩, hend⟩ := ResultSet.fetchWhile_invariant
      (P := Fetched serve keys maxBatchGet (outs.filterMap id))
      (fun rs hrs hnil _ => fetchMore_fetched hrs.1 (by simp [hnil, hrs.2]))
      hfetched hloop
    obtain ⟨hget, hholds⟩ := item_holds hmid
    rw [hget, Prod.mk.injEq] at hitem
    obtain ⟨rfl, rfl⟩ := hitem
    refine ⟨hfilter ▸ hholds, fun hmem => ?_⟩
    cases hresults : mid.results with
    | nil => exact ⟨hend hresults, by simp [hresults, hoffset]⟩
    | cons item results =>
        have hmem' : none ∈ outs := by simpa [hresults, hoffset] using hmem
        exact absurd (hrs.exhausted hmem').1 (by simp [hleft])

theorem init_between (keys : List κ) (maxBatchGet : ℕ) :
    Between serve keys maxBatchGet [] (init keys maxBatchGet) :=
  ⟨⟨⟨0, ⟨rfl, rfl, fun hleft => by simp [init, ResultSet.init] at hleft⟩, rfl⟩,
    by simp [init, ResultSet.init]⟩, fun hmem => by simp at hmem⟩

theorem nexts_between {fuel k : ℕ} {outs outs' : List (Option ι)}
    {rs after : BatchGetResultSet ι κ}
    (hrs : Between serve keys maxBatchGet outs rs)
    (hrun : ResultSet.nexts (fetchMore serve) fuel k rs = some (outs', after)) :
    Between serve keys maxBatchGet (outs ++ outs') after := by
  induction k generalizing outs outs' rs with
  | zero =>
      simp only [ResultSet.nexts, Option.some.injEq, Prod.mk.injEq] at hrun
      obtain ⟨rfl, rfl⟩ := hrun
      simpa using hrs
  | succ k ih =>
      simp only [ResultSet.nexts, Option.bind_eq_bind, Option.bind_eq_some_iff,
        Option.pure_def, Option.some.injEq, Prod.mk.injEq] at hrun
      obtain ⟨⟨out, mid⟩, hnext, ⟨rest, last⟩, hrest, rfl, rfl⟩ := hrun
      have hbetween := ih (next_between hrs hnext) hrest
      rwa [List.append_assoc] at hbetween

end BatchGetResultSet

/-! ## The keys of a run -/

open BatchGetResultSet in
/-- A batch get loses no key if and only if each request is answered in part. -/
theorem batchGet_losesNoKey_iff {keyOf : ι → κ}
    {serve : ℕ → List κ → BatchPage ι κ} {keys : List κ} {maxBatchGet : ℕ}
    {fuel k : ℕ} {outs : List (Option ι)} {rs : BatchGetResultSet ι κ}
    (hserve : Answers keyOf serve)
    (hrun : ResultSet.nexts (fetchMore serve) fuel k (init keys maxBatchGet) =
      some (outs, rs)) :
    LosesNoKey keyOf keys maxBatchGet outs rs.extra.fetched
        rs.extra.keysLeft ↔
      ∀ fetch ∈ rs.extra.fetched, fetch.keys ≠ [] → fetch.page.results ≠ [] := by
  obtain ⟨⟨⟨n, hfetching, hgiven⟩, hnonneg⟩, hexhausted⟩ :=
    nexts_between (init_between keys maxBatchGet) hrun
  rw [List.nil_append] at hexhausted hgiven
  rw [hfetching.extra]
  dsimp only
  constructor
  · intro hright
    have haccounted : ∀ m ≤ n,
        (accounted keyOf serve keys maxBatchGet m).Perm keys := by
      intro m hm
      cases m with
      | zero => exact List.Perm.refl keys
      | succ m =>
          obtain ⟨after, hafter⟩ := fetches_of_lt serve keys maxBatchGet hm
          exact (hright.conserved _ _ after hafter).symm
    have hsome := (accounted_perm_iff hserve n).mp haccounted
    intro fetch hmem
    obtain ⟨before, after, hsplit⟩ := List.append_of_mem hmem
    obtain ⟨-, rfl, hlt⟩ := fetches_split hsplit
    exact hsome _ hlt
  · intro hsome
    have haccounted := (accounted_perm_iff hserve n).mpr fun m hm => by
      obtain ⟨after, hafter⟩ := fetches_of_lt serve keys maxBatchGet hm
      refine hsome (fetch serve maxBatchGet m
        (leftAfter serve keys maxBatchGet m)) ?_
      rw [hafter]
      exact List.mem_append_right _ List.mem_cons_self
    have hended : none ∈ outs → leftAfter serve keys maxBatchGet n = [] :=
      fun hmem => hfetching.ended (hexhausted hmem).1
    refine ⟨?_, ?_, hended, ?_⟩
    · intro fetch hmem
      obtain ⟨before, after, hsplit⟩ := List.append_of_mem hmem
      obtain ⟨-, rfl, -⟩ := fetches_split hsplit
      exact List.length_take_le _ _
    · intro before fetch after hsplit
      obtain ⟨hbefore, rfl, hlt⟩ := fetches_split hsplit
      have hperm := (haccounted (before.length + 1) hlt).symm
      rw [accounted, fetches, ← hbefore, leftAfter] at hperm
      exact hperm
    · intro hmem
      have hperm := (haccounted n (Nat.le_refl n)).symm
      have hover := (hexhausted hmem).2
      rw [List.drop_eq_nil_of_le (by omega), List.append_nil] at hgiven
      rw [accounted, hended hmem, List.append_nil] at hperm
      rwa [hgiven, items, List.map_flatMap]

/-- A service that answers the first of two keys, then the other one. -/
theorem batchGet_losesNoKey_two_keys :
    let serve : ℕ → List ℕ → BatchPage ℕ ℕ := fun _ keys =>
      { results := keys.take 1, unprocessedKeys := keys.drop 1 }
    ∃ rs, ResultSet.nexts (BatchGetResultSet.fetchMore serve) 0 3
        (BatchGetResultSet.init [7, 8] 100) = some ([some 7, some 8, none], rs) ∧
      LosesNoKey id [7, 8] 100 [some 7, some 8, none] rs.extra.fetched
        rs.extra.keysLeft := by
  intro serve
  have hserve : Answers id serve := by
    intro n keys
    rw [List.map_id]
    exact List.Perm.of_eq (List.take_append_drop 1 keys)
  refine ⟨_, rfl, (batchGet_losesNoKey_iff hserve
    (rfl : ResultSet.nexts (BatchGetResultSet.fetchMore serve) 0 3
      (BatchGetResultSet.init [7, 8] 100) =
        some ([some 7, some 8, none], _))).mpr (by decide)⟩

/-- A key of which the service answers nothing at first is not asked for again. -/
theorem batchGet_loses_key :
    ¬∀ (keys : List ℕ) (maxBatchGet : ℕ)
        (serve : ℕ → List ℕ → BatchPage ℕ ℕ) (fuel k : ℕ)
        (outs : List (Option ℕ)) (rs : BatchGetResultSet ℕ ℕ),
      1 ≤ maxBatchGet → Answers id serve →
      ResultSet.nexts (BatchGetResultSet.fetchMore serve) fuel k
        (BatchGetResultSet.init keys maxBatchGet) = some (outs, rs) →
      LosesNoKey id keys maxBatchGet outs rs.extra.fetched
        rs.extra.keysLeft := by
  intro hall
  have hlost := (hall [7] 100
    (fun n keys =>
      if n = 0 then { results := [], unprocessedKeys := keys }
      else { results := keys, unprocessedKeys := [] })
    0 1 [none] _ (by decide)
    (fun n keys => by by_cases hn : n = 0 <;> simp [hn]) rfl).yielded (by simp)
  simpa using hlost.length_eq

end Boto.DynamoDB2
