import Boto.Python

/-!
# Pages of search results

`get_all_paged` and `get_all_hits` of `boto/cloudsearch/search.py` and of
`boto/cloudsearch2/search.py`, which are the same.  The number of pages is counted from the
first hit on, and one page more than that is requested.
-/

namespace Boto.CloudSearch

/-- The two packages. -/
inductive Package
  | cloudsearch
  | cloudsearch2
  deriving DecidableEq

/-- `Query.RESULTS_PER_PAGE`. -/
def Package.resultsPerPage : Package → ℕ
  | cloudsearch => 500
  | cloudsearch2 => 500

/-- `Query`, as far as it says what a request asks for. -/
structure Query where
  start : ℕ
  size : ℕ
  realSize : ℕ
  deriving DecidableEq

namespace Query

variable (package : Package)

/-- How many documents a request asks for, if so many are wanted. -/
def clip (newSize : ℕ) : ℕ :=
  if package.resultsPerPage < newSize ∨ newSize = 0 then package.resultsPerPage else newSize

/-- `update_size`. -/
def updateSize (newSize : ℕ) (self : Query) : Query :=
  { self with size := newSize, realSize := clip package newSize }

/-- `Query(size=size, start=start)`. -/
def init (size start : ℕ) : Query where
  start := start
  size := size
  realSize := clip package size

theorem clip_pos (newSize : ℕ) : 0 < clip package newSize := by
  have hpositive : 0 < package.resultsPerPage := by cases package <;> decide
  rw [clip]
  split
  · exact hpositive
  · omega

end Query

/-- `SearchResults`: how many documents match, those on the page, and `num_pages_needed`. -/
structure SearchResults (δ : Type) where
  hits : ℕ
  docs : List δ
  numPagesNeeded : ℕ

/-- `ceil(hits / real_size)`.  Python 2 has dropped the remainder before there is anything to
round up. -/
def pagesNeeded (version : PyVersion) (hits realSize : ℕ) : ℕ :=
  match version with
  | .py2 => hits / realSize
  | .py3 => (hits + realSize - 1) / realSize

variable {δ : Type} (version : PyVersion) (ranking : List δ)

/-- A call of the connection: the service answers with the documents of the ranking from the
start on. -/
def call (query : Query) : SearchResults δ where
  hits := ranking.length
  docs := (ranking.drop query.start).take query.realSize
  numPagesNeeded := pagesNeeded version ranking.length query.realSize

/-- The loop of both generators, with what the requests give. -/
def pages : ℕ → ℕ → ℕ → Query → Option (List (SearchResults δ))
  | 0, _, _, _ => none
  | fuel + 1, page, numPagesNeeded, query =>
      if page ≤ numPagesNeeded then
        let results := call version ranking query
        let query := { query with start := query.start + query.realSize }
        (pages fuel (page + 1) results.numPagesNeeded query).map (results :: ·)
      else some []

/-- `get_all_paged`. -/
def getAllPaged (package : Package) (fuel : ℕ) (query : Query) (perPage : ℕ) :
    Option (List (SearchResults δ)) :=
  pages version ranking fuel 0 0 (query.updateSize package perPage)

/-- `get_all_hits`, with the number of requests. -/
def getAllHits (fuel : ℕ) (query : Query) : Option (List δ × ℕ) :=
  (pages version ranking fuel 0 0 query).map fun results =>
    (results.flatMap SearchResults.docs, results.length)

/-! ## What the loop requests -/

section

variable {version : PyVersion} {ranking : List δ}

/-- The answer to the request for a page. -/
def answer (version : PyVersion) (ranking : List δ) (query : Query) (k : ℕ) :
    SearchResults δ :=
  call version ranking { query with start := query.start + k * query.realSize }

/-- Once the number of pages is known, the loop goes on up to the page with that number. -/
theorem pages_eq {fuel page : ℕ} (query : Query) (count : ℕ)
    (hcount : page + count = pagesNeeded version ranking.length query.realSize + 1)
    (hfuel : count < fuel) :
    pages version ranking fuel page (pagesNeeded version ranking.length query.realSize) query =
      some ((List.range count).map (answer version ranking query)) := by
  induction count generalizing fuel page query with
  | zero =>
      obtain ⟨fuel, rfl⟩ := Nat.exists_eq_add_of_lt hfuel
      rw [Nat.zero_add, pages, if_neg (by omega)]
      rfl
  | succ count ih =>
      obtain ⟨fuel, rfl⟩ := Nat.exists_eq_add_of_lt (Nat.zero_lt_of_lt hfuel)
      rw [Nat.zero_add] at hfuel ⊢
      rw [pages, if_pos (by omega)]
      have hrest := @ih fuel (page + 1) { query with start := query.start + query.realSize }
        (by dsimp only; omega) (by omega)
      dsimp only [call] at hrest ⊢
      rw [hrest, List.range_succ_eq_map, List.map_cons, List.map_map]
      have hanswers : answer version ranking { query with start := query.start + query.realSize } =
          answer version ranking query ∘ Nat.succ := by
        funext k
        rw [Function.comp_apply, answer, answer]
        have hstart : query.start + query.realSize + k * query.realSize =
            query.start + k.succ * query.realSize := by
          rw [Nat.succ_mul]
          omega
        dsimp only
        rw [hstart]
      rw [hanswers]
      simp [answer, call]

/-- A run makes one request more than there are pages from the first hit on. -/
theorem pages_run {fuel : ℕ} (query : Query)
    (hfuel : pagesNeeded version ranking.length query.realSize + 1 < fuel) :
    pages version ranking fuel 0 0 query =
      some ((List.range (pagesNeeded version ranking.length query.realSize + 1)).map
        (answer version ranking query)) := by
  obtain ⟨fuel, rfl⟩ := Nat.exists_eq_add_of_lt (Nat.zero_lt_of_lt hfuel)
  rw [Nat.zero_add] at hfuel ⊢
  have hlater := @pages_eq _ version ranking (fuel + 1) 0 query
    (pagesNeeded version ranking.length query.realSize + 1) (Nat.zero_add _) hfuel
  rw [pages, if_pos (Nat.zero_le _)] at hlater ⊢
  exact hlater

/-- With more fuel, a run that has ended stays the same. -/
theorem pages_unique {fuel : ℕ} {query : Query} {results : List (SearchResults δ)}
    (hrun : pages version ranking fuel 0 0 query = some results) :
    results = (List.range (pagesNeeded version ranking.length query.realSize + 1)).map
      (answer version ranking query) := by
  have hmono : ∀ (fuel page needed : ℕ) (query : Query) (results : List (SearchResults δ)),
      pages version ranking fuel page needed query = some results →
        pages version ranking (fuel + 1) page needed query = some results := by
    intro fuel
    induction fuel with
    | zero => intro page needed query results hrun; cases hrun
    | succ fuel ih =>
        intro page needed query results hrun
        rw [pages] at hrun ⊢
        split at hrun
        · rename_i hpage
          obtain ⟨later, hlater, rfl⟩ := Option.map_eq_some_iff.mp hrun
          rw [if_pos hpage]
          dsimp only
          rw [ih _ _ _ _ hlater]
          rfl
        · rename_i hpage
          rw [if_neg hpage]
          exact hrun
  have hmore : ∀ more, pages version ranking (fuel + more) 0 0 query = some results := by
    intro more
    induction more with
    | zero => exact hrun
    | succ more ih => exact hmono _ _ _ _ _ ih
  have hrun' := @pages_run _ version ranking
    (fuel + (pagesNeeded version ranking.length query.realSize + 2)) query (by omega)
  rw [hmore] at hrun'
  exact Option.some.inj hrun'

end

/-! ## Complete paging -/

/-- The pages have the documents in their order, one after the other, none of them is empty
unless there is nothing, and there are no more of them than it takes. -/
structure IsPaging (docs : List δ) (size : ℕ) (pages : List (List δ)) : Prop where
  flatten_eq : pages.flatten = docs
  consecutive : ∀ k page, pages[k]? = some page → page = (docs.drop (k * size)).take size
  nonempty : docs ≠ [] → [] ∉ pages
  length_eq : pages.length = max 1 ((docs.length + size - 1) / size)

/-- `get_all_paged` gives the documents of the query, page by page. -/
def PagesAll (package : Package) (query : Query) (perPage : ℕ) : Prop :=
  ∃ fuel results, getAllPaged version ranking package fuel query perPage = some results ∧
    IsPaging (ranking.drop query.start) (Query.clip package perPage)
      (results.map SearchResults.docs)

/-- `get_all_hits` gives the documents of the query, with no more requests than it takes. -/
def YieldsAll (query : Query) : Prop :=
  ∃ fuel yielded requests, getAllHits version ranking fuel query = some (yielded, requests) ∧
    yielded = ranking.drop query.start ∧
      requests = max 1 (((ranking.drop query.start).length + query.realSize - 1) / query.realSize)

/-- No page is requested in vain: there are no hits, or the interpreter drops the remainder and
the start does not come behind the full pages that there would be from the first hit on. -/
def NoneInVain (hits start realSize : ℕ) : Prop :=
  hits = 0 ∨ version = .py2 ∧ (hits < realSize ∨ start < hits % realSize)

section

variable {version : PyVersion} {ranking : List δ}

/-- The number of requests is right exactly if none is in vain. -/
theorem pagesNeeded_succ_iff {hits start size : ℕ} (hsize : 0 < size) (hstart : start ≤ hits) :
    pagesNeeded version hits size + 1 = max 1 ((hits - start + size - 1) / size) ↔
      NoneInVain version hits start size := by
  have hsplit : size * (hits / size) + hits % size = hits := Nat.div_add_mod hits size
  have hmod : hits % size < size := Nat.mod_lt hits hsize
  rw [NoneInVain]
  cases version with
  | py3 =>
      rw [pagesNeeded]
      constructor
      · intro heq
        refine .inl ?_
        by_contra hhits
        -- The pages from the start on are no more than those from the first hit on.
        have hle : (hits - start + size - 1) / size ≤ (hits + size - 1) / size :=
          Nat.div_le_div_right (by omega)
        have hone : 1 ≤ (hits + size - 1) / size :=
          (Nat.le_div_iff_mul_le hsize).mpr (by omega)
        omega
      · rintro (rfl | ⟨hversion, -⟩)
        · have hnone : (0 + size - 1) / size = 0 := Nat.div_eq_of_lt (by omega)
          rw [Nat.zero_sub, hnone]
          rfl
        · cases hversion
  | py2 =>
      rw [pagesNeeded]
      have hceil : (hits - start + size - 1) / size = hits / size + 1 ↔ start < hits % size := by
        rw [Nat.div_eq_iff hsize]
        constructor
        · rintro ⟨hlow, hhigh⟩
          rw [Nat.add_mul, Nat.mul_comm (hits / size)] at hlow
          omega
        · intro hlt
          rw [Nat.add_mul, Nat.mul_comm (hits / size)]
          omega
      constructor
      · intro heq
        by_cases hfew : hits < size
        · exact .inr ⟨rfl, .inl hfew⟩
        · have hone : 1 ≤ hits / size := (Nat.le_div_iff_mul_le hsize).mpr (by omega)
          exact .inr ⟨rfl, .inr (hceil.mp (by omega))⟩
      · have hless : hits < size →
            hits / size + 1 = max 1 ((hits - start + size - 1) / size) := by
          intro hfew
          have hzero : hits / size = 0 := Nat.div_eq_of_lt hfew
          have hle : (hits - start + size - 1) / size < 2 :=
            (Nat.div_lt_iff_lt_mul hsize).mpr (by omega)
          omega
        rintro (rfl | ⟨-, hfew | hlt⟩)
        · exact hless hsize
        · exact hless hfew
        · rw [hceil.mpr hlt]
          exact (Nat.max_eq_right (Nat.le_add_left 1 _)).symm

/-- Pages that are answered one after the other have the documents from the start on. -/
theorem flatten_answers (query : Query) (count : ℕ) :
    ((List.range count).map (answer version ranking query)).flatMap SearchResults.docs =
      (ranking.drop query.start).take (count * query.realSize) := by
  induction count with
  | zero => rw [Nat.zero_mul]; rfl
  | succ count ih =>
      rw [List.range_succ, List.map_append, List.flatMap_append, ih, Nat.succ_mul, List.take_add,
        List.drop_drop]
      simp [answer, call]

/-- There are enough requests for all documents. -/
theorem length_le_requested (query : Query) (hsize : 0 < query.realSize) :
    ranking.length ≤ (pagesNeeded version ranking.length query.realSize + 1) * query.realSize := by
  have hsplit := Nat.div_add_mod ranking.length query.realSize
  have hmod := Nat.mod_lt ranking.length hsize
  have hmul := Nat.mul_comm query.realSize (ranking.length / query.realSize)
  have hfloor : ranking.length / query.realSize ≤
      pagesNeeded version ranking.length query.realSize := by
    cases version with
    | py2 => exact Nat.le_refl _
    | py3 => exact Nat.div_le_div_right (by omega)
  have hle := Nat.mul_le_mul_right query.realSize hfloor
  rw [Nat.add_mul]
  omega

/-- All documents from the start on are given out. -/
theorem flatten_run (query : Query) (hsize : 0 < query.realSize) :
    ((List.range (pagesNeeded version ranking.length query.realSize + 1)).map
      (answer version ranking query)).flatMap SearchResults.docs =
        ranking.drop query.start := by
  rw [flatten_answers, List.take_of_length_le]
  rw [List.length_drop]
  exact Nat.le_trans (Nat.sub_le _ _) (length_le_requested query hsize)

/-- As many pages as it takes are a paging. -/
theorem isPaging_answers {query : Query} (hsize : 0 < query.realSize) {count : ℕ}
    (hcount : count = max 1
      (((ranking.drop query.start).length + query.realSize - 1) / query.realSize))
    (hall : ((List.range count).map (answer version ranking query)).flatMap SearchResults.docs =
      ranking.drop query.start) :
    IsPaging (ranking.drop query.start) query.realSize
      (((List.range count).map (answer version ranking query)).map SearchResults.docs) := by
  have hpage : ∀ k, (answer version ranking query k).docs =
      ((ranking.drop query.start).drop (k * query.realSize)).take query.realSize := by
    intro k
    rw [List.drop_drop]
    rfl
  constructor
  · exact hall
  · intro k page hget
    rw [List.map_map, List.getElem?_map] at hget
    obtain ⟨j, hj, rfl⟩ := Option.map_eq_some_iff.mp hget
    obtain ⟨hk, rfl⟩ := List.getElem?_eq_some_iff.mp hj
    rw [List.getElem_range]
    exact hpage _
  · intro hdocs hmem
    rw [List.map_map, List.mem_map] at hmem
    obtain ⟨k, hk, hempty⟩ := hmem
    rw [List.mem_range] at hk
    have hlength := congrArg List.length (hpage k)
    rw [Function.comp_apply] at hempty
    rw [hempty, List.length_take, List.length_drop, List.length_nil] at hlength
    have hpositive : 0 < (ranking.drop query.start).length := List.length_pos_iff.mpr hdocs
    have hlast : k < ((ranking.drop query.start).length + query.realSize - 1) / query.realSize := by
      have hone : 1 ≤ ((ranking.drop query.start).length + query.realSize - 1) / query.realSize :=
        (Nat.le_div_iff_mul_le hsize).mpr (by omega)
      omega
    have hfull := (Nat.le_div_iff_mul_le hsize).mp hlast
    rw [Nat.succ_mul] at hfull
    omega
  · rw [List.length_map, List.length_map, List.length_range]
    exact hcount

/-- Both generators give all documents from the start on, and no request is in vain exactly
under the condition for their sizes. -/
theorem paging_iff (package : Package) (size start perPage : ℕ)
    (hstart : start ≤ ranking.length) :
    (PagesAll version ranking package (Query.init package size start) perPage ↔
      NoneInVain version ranking.length start (Query.clip package perPage)) ∧
    (YieldsAll version ranking (Query.init package size start) ↔
      NoneInVain version ranking.length start (Query.clip package size)) := by
  constructor
  · let query := (Query.init package size start).updateSize package perPage
    have hsize : 0 < query.realSize := Query.clip_pos package perPage
    refine Iff.trans ?_ (pagesNeeded_succ_iff hsize hstart)
    constructor
    · rintro ⟨fuel, results, hrun, hpaging⟩
      obtain rfl := pages_unique hrun
      have hlength := hpaging.length_eq
      rw [List.length_map, List.length_map, List.length_range, List.length_drop] at hlength
      exact hlength
    · intro hcount
      have hdrop : (ranking.drop query.start).length = ranking.length - start :=
        List.length_drop
      refine ⟨_, _, pages_run query (Nat.lt_succ_self _),
        isPaging_answers hsize ?_ (flatten_run query hsize)⟩
      rw [hdrop]
      exact hcount
  · let query := Query.init package size start
    have hsize : 0 < query.realSize := Query.clip_pos package size
    refine Iff.trans ?_ (pagesNeeded_succ_iff hsize hstart)
    constructor
    · rintro ⟨fuel, yielded, requests, hrun, -, hrequests⟩
      obtain ⟨results, hresults, heq⟩ := Option.map_eq_some_iff.mp hrun
      obtain ⟨-, rfl⟩ := Prod.mk.inj heq
      obtain rfl := pages_unique hresults
      rw [List.length_map, List.length_range, List.length_drop] at hrequests
      exact hrequests
    · intro hcount
      have hdrop : (ranking.drop query.start).length = ranking.length - start :=
        List.length_drop
      have hyields : getAllHits version ranking
          (pagesNeeded version ranking.length query.realSize + 2) query =
            some (ranking.drop query.start,
              pagesNeeded version ranking.length query.realSize + 1) := by
        rw [getAllHits, pages_run query (Nat.lt_succ_self _), Option.map_some,
          flatten_run query hsize, List.length_map, List.length_range]
      refine ⟨_, _, _, hyields, rfl, ?_⟩
      rw [hdrop]
      exact hcount

/-- Two documents on pages of one. -/
theorem paging_two : PagesAll .py2 ['a', 'b'] .cloudsearch (Query.init .cloudsearch 10 0) 3 :=
  (@paging_iff _ .py2 ['a', 'b'] .cloudsearch 10 0 3 (by decide)).1.mpr
    (.inr ⟨rfl, .inl (by decide)⟩)

/-- Ten hits on pages of ten take two requests. -/
theorem paging_in_vain :
    ¬PagesAll .py3 (List.range 10) .cloudsearch (Query.init .cloudsearch 10 0) 10 ∧
      ¬YieldsAll .py2 (List.range 10) (Query.init .cloudsearch2 10 0) := by
  constructor
  · rintro ⟨fuel, results, hrun, hpaging⟩
    have hlength := hpaging.length_eq
    rw [pages_unique hrun] at hlength
    exact absurd hlength (by decide)
  · rintro ⟨fuel, yielded, requests, hrun, -, hrequests⟩
    obtain ⟨results, hresults, heq⟩ := Option.map_eq_some_iff.mp hrun
    obtain ⟨-, rfl⟩ := Prod.mk.inj heq
    rw [pages_unique hresults] at hrequests
    exact absurd hrequests (by decide)

end

end Boto.CloudSearch
