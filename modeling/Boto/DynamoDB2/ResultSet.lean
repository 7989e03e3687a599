import Mathlib.Data.Int.Notation
import Mathlib.Data.List.Basic
import Mathlib.Logic.Function.Iterate

/-!
# Result sets

`ResultSet` and `BatchGetResultSet` of `boto/dynamodb2/results.py`.  Both iterate
with `__next__` over what their `fetch_more` gets, page by page.  The service is a
function of the number of the request and of its arguments.
-/

namespace Boto.DynamoDB2

/-! ## Iterating -/

/-- The attributes of `ResultSet`, with those of a subclass in `extra`. -/
structure ResultSet (ι κ ε : Type) where
  results : List ι
  offset : ℤ
  resultsLeft : Bool
  lastKeySeen : Option κ
  fetches : ℕ
  maxPageSize : Option ℤ
  limit : Option ℤ
  extra : ε
  deriving DecidableEq, Repr

/-- What the callable of a `ResultSet` returns. -/
structure Page (ι κ : Type) where
  results : List ι
  lastKey : Option κ
  deriving DecidableEq, Repr

namespace ResultSet

variable {ι κ ε : Type}

/-- `ResultSet.__init__`, and `to_call` with the limit that the caller gave. -/
def init (maxPageSize : Option ℤ) (limit : Option ℤ) (extra : ε) :
    ResultSet ι κ ε where
  results := []
  offset := -1
  resultsLeft := true
  lastKeySeen := none
  fetches := 0
  maxPageSize := maxPageSize
  limit := limit.filter fun limit => 0 ≤ limit
  extra := extra

/-- The end of `__next__`: the item at the offset, if the limit allows it. -/
def item (self : ResultSet ι κ ε) : Option ι × ResultSet ι κ ε :=
  if self.offset < (self.results.length : ℤ) then
    match self.limit with
    | none => (self.results[self.offset.toNat]?, self)
    | some limit =>
        let self := { self with limit := some (limit - 1) }
        if limit - 1 < 0 then (none, self)
        else (self.results[self.offset.toNat]?, self)
  else (none, self)

/-- `self._offset += 1`. -/
def moved (self : ResultSet ι κ ε) : ResultSet ι κ ε :=
  { self with offset := self.offset + 1 }

@[simp] theorem moved_results (self : ResultSet ι κ ε) :
    self.moved.results = self.results := rfl

@[simp] theorem moved_offset (self : ResultSet ι κ ε) :
    self.moved.offset = self.offset + 1 := rfl

@[simp] theorem moved_resultsLeft (self : ResultSet ι κ ε) :
    self.moved.resultsLeft = self.resultsLeft := rfl

@[simp] theorem moved_limit (self : ResultSet ι κ ε) :
    self.moved.limit = self.limit := rfl

@[simp] theorem moved_fetches (self : ResultSet ι κ ε) :
    self.moved.fetches = self.fetches := rfl

section

variable (fetchMore : ResultSet ι κ ε → ResultSet ι κ ε)

/-- `while not len(self._results) and self._results_left: self.fetch_more()`, for
at most the given number of rounds. -/
def fetchWhile : ℕ → ResultSet ι κ ε → Option (ResultSet ι κ ε)
  | 0, self => if self.results = [] ∧ self.resultsLeft then none else some self
  | fuel + 1, self =>
      if self.results = [] ∧ self.resultsLeft then
        fetchWhile fuel (fetchMore self)
      else some self

/-- `__next__`, where `none` is a `StopIteration`.  There is no outcome when the
given number of rounds is not enough. -/
def next (fuel : ℕ) (self : ResultSet ι κ ε) :
    Option (Option ι × ResultSet ι κ ε) :=
  let self := self.moved
  if (self.results.length : ℤ) ≤ self.offset then
    if self.resultsLeft then
      (fetchWhile fetchMore fuel (fetchMore self)).map item
    else some (none, self)
  else some self.item

/-- Calls of `__next__` one after another. -/
def nexts (fuel : ℕ) :
    ℕ → ResultSet ι κ ε → Option (List (Option ι) × ResultSet ι κ ε)
  | 0, self => some ([], self)
  | k + 1, self => do
      let (out, self) ← next fetchMore fuel self
      let (outs, self) ← nexts fuel k self
      return (out :: outs, self)

variable {fetchMore : ResultSet ι κ ε → ResultSet ι κ ε}

/-- What a fetch keeps is kept by the loop, which ends with results or with none
left. -/
theorem fetchWhile_invariant {P : ResultSet ι κ ε → Prop}
    (hfetch : ∀ self, P self → self.results = [] → self.resultsLeft = true →
      P (fetchMore self))
    {fuel : ℕ} {self after : ResultSet ι κ ε} (hself : P self)
    (hrun : fetchWhile fetchMore fuel self = some after) :
    P after ∧ (after.results = [] → after.resultsLeft = false) := by
  have hstop : ∀ {self : ResultSet ι κ ε},
      ¬(self.results = [] ∧ self.resultsLeft = true) →
        self.results = [] → self.resultsLeft = false := by
    intro self hnot hnil
    simpa using fun hleft => hnot ⟨hnil, hleft⟩
  induction fuel generalizing self with
  | zero =>
      by_cases hmore : self.results = [] ∧ self.resultsLeft = true
      · simp [fetchWhile, hmore] at hrun
      · simp only [fetchWhile, if_neg hmore, Option.some.injEq] at hrun
        exact hrun ▸ ⟨hself, hstop hmore⟩
  | succ fuel ih =>
      by_cases hmore : self.results = [] ∧ self.resultsLeft = true
      · simp only [fetchWhile, if_pos hmore] at hrun
        exact ih (hfetch self hself hmore.1 hmore.2) hrun
      · simp only [fetchWhile, if_neg hmore, Option.some.injEq] at hrun
        exact hrun ▸ ⟨hself, hstop hmore⟩

/-- The loop ends when some number of fetches gives results or leaves none. -/
theorem fetchWhile_of_stop {n fuel : ℕ} {self : ResultSet ι κ ε}
    (hfuel : n ≤ fuel)
    (hstop : (fetchMore^[n] self).results = [] →
      (fetchMore^[n] self).resultsLeft = false) :
    ∃ after, fetchWhile fetchMore fuel self = some after := by
  induction fuel generalizing n self with
  | zero =>
      obtain rfl : n = 0 := by omega
      refine ⟨self, if_neg ?_⟩
      rintro ⟨hnil, hleft⟩
      have hended : self.resultsLeft = false := hstop hnil
      simp [hended] at hleft
  | succ fuel ih =>
      rw [fetchWhile]
      split
      · rename_i hmore
        cases n with
        | zero =>
            have hended : self.resultsLeft = false := hstop hmore.1
            simp [hended] at hmore
        | succ n => exact @ih n (fetchMore self) (by omega) hstop
      · exact ⟨self, rfl⟩

theorem fetchWhile_mono {fuel fuel' : ℕ} {self after : ResultSet ι κ ε}
    (hle : fuel ≤ fuel') (hrun : fetchWhile fetchMore fuel self = some after) :
    fetchWhile fetchMore fuel' self = some after := by
  induction fuel generalizing fuel' self with
  | zero =>
      by_cases hmore : self.results = [] ∧ self.resultsLeft = true
      · simp [fetchWhile, hmore] at hrun
      · rw [fetchWhile, if_neg hmore] at hrun
        cases fuel' <;> rw [fetchWhile, if_neg hmore, hrun]
  | succ fuel ih =>
      obtain ⟨fuel', rfl⟩ : ∃ n, fuel' = n + 1 := ⟨fuel' - 1, by omega⟩
      rw [fetchWhile] at hrun ⊢
      split at hrun
      · rename_i hmore
        rw [if_pos hmore]
        exact ih (by omega) hrun
      · rename_i hmore
        rw [if_neg hmore, hrun]

/-- No page is fetched for an item at hand, or when no results are left. -/
theorem next_of_hand {self : ResultSet ι κ ε}
    (hhand : self.results.length ≤ self.offset + 1 → self.resultsLeft = false)
    (fuel : ℕ) : next fetchMore fuel self = some self.moved.item := by
  simp only [next]
  by_cases hover : (self.moved.results.length : ℤ) ≤ self.moved.offset
  · have hitem : self.moved.item = (none, self.moved) := by
      rw [item, if_neg (Int.not_lt.mpr hover)]
    have hleft : self.moved.resultsLeft = false := hhand hover
    rw [if_pos hover, if_neg (Bool.eq_false_iff.mp hleft), hitem]
  · rw [if_neg hover]

theorem next_mono {fuel fuel' : ℕ} {self : ResultSet ι κ ε}
    {out : Option ι × ResultSet ι κ ε} (hle : fuel ≤ fuel')
    (hrun : next fetchMore fuel self = some out) :
    next fetchMore fuel' self = some out := by
  simp only [next] at *
  split at hrun
  · rename_i hover
    rw [if_pos hover]
    split at hrun
    · rename_i hleft
      obtain ⟨mid, hmid, hitem⟩ := Option.map_eq_some_iff.mp hrun
      rw [if_pos hleft, fetchWhile_mono hle hmid, Option.map_some, hitem]
    · rename_i hleft
      rw [if_neg hleft, hrun]
  · rename_i hlt
    rw [if_neg hlt, hrun]

theorem nexts_mono {fuel fuel' k : ℕ} {self : ResultSet ι κ ε}
    {out : List (Option ι) × ResultSet ι κ ε} (hle : fuel ≤ fuel')
    (hrun : nexts fetchMore fuel k self = some out) :
    nexts fetchMore fuel' k self = some out := by
  induction k generalizing self out with
  | zero => exact hrun
  | succ k ih =>
      simp only [nexts, Option.bind_eq_bind, Option.bind_eq_some_iff] at *
      obtain ⟨⟨first, mid⟩, hnext, ⟨rest, last⟩, hrest, hout⟩ := hrun
      exact ⟨⟨first, mid⟩, next_mono hle hnext, ⟨rest, last⟩, ih hrest, hout⟩

/-- The three ways of a call: an item of the page at hand, none left, or an item
of the page that is fetched. -/
theorem next_cases {fuel : ℕ} {self after : ResultSet ι κ ε} {out : Option ι}
    (hrun : next fetchMore fuel self = some (out, after)) :
    (self.offset + 1 < self.results.length ∧ self.moved.item = (out, after)) ∨
      (self.results.length ≤ self.offset + 1 ∧ self.resultsLeft = false ∧
        out = none ∧ after = self.moved) ∨
      (self.results.length ≤ self.offset + 1 ∧ self.resultsLeft = true ∧
        ∃ mid, fetchWhile fetchMore fuel (fetchMore self.moved) = some mid ∧
          mid.item = (out, after)) := by
  simp only [next] at hrun
  split at hrun
  · rename_i hover
    split at hrun
    · rename_i hleft
      exact Or.inr (Or.inr ⟨hover, hleft, Option.map_eq_some_iff.mp hrun⟩)
    · rename_i hleft
      simp only [Option.some.injEq, Prod.mk.injEq] at hrun
      exact Or.inr (Or.inl ⟨hover, by simpa using hleft, hrun.1.symm,
        hrun.2.symm⟩)
  · rename_i hlt
    exact Or.inl ⟨Int.not_le.mp hlt, Option.some.inj hrun⟩

/-- Without a limit, the item at the offset is given if there is one. -/
theorem item_of_no_limit {self : ResultSet ι κ ε} (hlimit : self.limit = none)
    (hoffset : 0 ≤ self.offset) :
    self.item = (self.results[self.offset.toNat]?, self) := by
  rw [item]
  by_cases hlt : self.offset < (self.results.length : ℤ)
  · rw [if_pos hlt, hlimit]
  · rw [if_neg hlt, List.getElem?_eq_none (by omega)]

end

/-! ## Pages -/

/-- The page size that `fetch_more` goes on with: no more than the limit. -/
def pageSize (self : ResultSet ι κ ε) : Option ℤ :=
  match self.limit, self.maxPageSize with
  | some limit, some size =>
      if limit ≠ 0 ∧ size ≠ 0 ∧ limit < size then some limit else some size
  | _, size => size

/-- The limit of the request: the page size, or what is left of the limit. -/
def requestLimit (self : ResultSet ι κ ε) : Option ℤ :=
  match self.pageSize with
  | some size => some size
  | none => self.limit

/-- `ResultSet.fetch_more`, where `serve` answers a request by its number, its
start key and its limit. -/
def fetchMore (serve : ℕ → Option κ → Option ℤ → Page ι κ)
    (self : ResultSet ι κ ε) : ResultSet ι κ ε :=
  let page := serve self.fetches self.lastKeySeen self.requestLimit
  let enough :=
    match self.limit with
    | none => false
    | some limit => 0 ≤ limit && limit - page.results.length ≤ 0
  { self with
    results := page.results
    offset := 0
    resultsLeft := self.resultsLeft && !enough && page.lastKey.isSome
    lastKeySeen := page.lastKey
    fetches := self.fetches + 1
    maxPageSize := self.pageSize }

section

variable (serve : ℕ → Option κ → Option ℤ → Page ι κ) (self : ResultSet ι κ ε)

@[simp] theorem fetchMore_results : (self.fetchMore serve).results =
    (serve self.fetches self.lastKeySeen self.requestLimit).results := rfl

@[simp] theorem fetchMore_offset : (self.fetchMore serve).offset = 0 := rfl

@[simp] theorem fetchMore_limit : (self.fetchMore serve).limit = self.limit := rfl

@[simp] theorem fetchMore_fetches :
    (self.fetchMore serve).fetches = self.fetches + 1 := rfl

@[simp] theorem fetchMore_lastKeySeen : (self.fetchMore serve).lastKeySeen =
    (serve self.fetches self.lastKeySeen self.requestLimit).lastKey := rfl

@[simp] theorem fetchMore_maxPageSize :
    (self.fetchMore serve).maxPageSize = self.pageSize := rfl

/-- More is to be fetched if more was before, the limit, if there is one, is not
reached and the page has a last key. -/
theorem fetchMore_resultsLeft : (self.fetchMore serve).resultsLeft = true ↔
    (self.resultsLeft = true ∧
      ∀ limit, self.limit = some limit → 0 ≤ limit →
        (serve self.fetches self.lastKeySeen
          self.requestLimit).results.length < limit) ∧
      (serve self.fetches self.lastKeySeen
        self.requestLimit).lastKey ≠ none := by
  simp only [fetchMore, Bool.and_eq_true, Bool.not_eq_true',
    Option.isSome_iff_ne_none]
  cases self.limit with
  | none => simp
  | some limit => simp

end

end ResultSet

/-! ## Batches of keys -/

/-- What `Table._batch_get` returns. -/
structure BatchPage (ι κ : Type) where
  results : List ι
  unprocessedKeys : List κ
  deriving DecidableEq, Repr

/-- A request of a `BatchGetResultSet`, its answer, and the keys left after it. -/
structure BatchFetch (ι κ : Type) where
  keys : List κ
  page : BatchPage ι κ
  left : List κ
  deriving DecidableEq, Repr

/-- The attributes that `BatchGetResultSet` adds, with the requests made so far. -/
structure BatchGet (ι κ : Type) where
  keysLeft : List κ
  maxBatchGet : ℕ
  fetched : List (BatchFetch ι κ)
  deriving DecidableEq, Repr

/-- `BatchGetResultSet`. -/
abbrev BatchGetResultSet (ι κ : Type) := ResultSet ι κ (BatchGet ι κ)

namespace BatchGetResultSet

variable {ι κ : Type}

/-- `for offset, key_data in enumerate(keys): left.insert(offset, key_data)`, from
an offset on. -/
def insertAll : ℕ → List κ → List κ → List κ
  | _, [], left => left
  | offset, key :: keys, left =>
      insertAll (offset + 1) keys (left.insertIdx offset key)

/-- `BatchGetResultSet(keys=keys, max_batch_get=maxBatchGet)`, and `to_call`. -/
def init (keys : List κ) (maxBatchGet : ℕ) : BatchGetResultSet ι κ :=
  ResultSet.init none none
    { keysLeft := keys, maxBatchGet := maxBatchGet, fetched := [] }

/-- `BatchGetResultSet.fetch_more`, where `serve` answers a request by its number
and its keys. -/
def fetchMore (serve : ℕ → List κ → BatchPage ι κ)
    (self : BatchGetResultSet ι κ) : BatchGetResultSet ι κ :=
  let keys := self.extra.keysLeft.take self.extra.maxBatchGet
  let rest := self.extra.keysLeft.drop self.extra.maxBatchGet
  let resultsLeft := self.resultsLeft && !rest.isEmpty
  let page := serve self.extra.fetched.length keys
  if page.results.isEmpty then
    { self with
      results := []
      offset := 0
      resultsLeft := resultsLeft
      extra :=
        { self.extra with
          keysLeft := rest
          fetched := self.extra.fetched ++
            [{ keys := keys, page := page, left := rest }] } }
  else
    let left := insertAll 0 page.unprocessedKeys rest
    { self with
      results := page.results
      offset := 0
      resultsLeft := resultsLeft || !left.isEmpty
      extra :=
        { self.extra with
          keysLeft := left
          fetched := self.extra.fetched ++
            [{ keys := keys, page := page, left := left }] } }

end BatchGetResultSet

end Boto.DynamoDB2
