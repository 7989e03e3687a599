import Boto.DynamoDB2.FilterConditions
import Mathlib.Algebra.BigOperators.Group.List.Basic
import Mathlib.Algebra.GroupWithZero.Nat
import Mathlib.Tactic.Common

/-!
# Counting without fetching

`Table.query_count` of `boto/dynamodb2/table.py` asks for the count of page after page.  It
also stops when nothing has been counted yet, so a first page without matches is taken for
the last one.
-/

namespace Boto.DynamoDB2

/-- A key as it is received. -/
abbrev RawKey := List (Text × Wire)

/-- The parts of a response that are read. -/
structure CountPage where
  count : Option ℕ
  lastEvaluatedKey : Option RawKey

/-- A request for a count. -/
structure CountRequest where
  tableName : Text
  indexName : Option Text
  consistentRead : Bool
  select : Text
  keyConditions : OrderedDict Text Lookup
  queryFilter : Option (OrderedDict Text Lookup)
  conditionalOperator : Option Text
  limit : Option ℕ
  scanIndexForward : Bool
  exclusiveStartKey : Option RawKey

/-- The arguments of `query_count`. -/
structure CountArguments where
  index : Option Text := none
  consistent : Bool := false
  conditionalOperator : Option Text := none
  queryFilter : Option (OrderedDict Text Value) := none
  scanIndexForward : Bool := true
  limit : Option ℕ := none
  exclusiveStartKey : Option RawKey := none
  filterKwargs : OrderedDict Text Value

/-- The requests that were made, and the count if there was a response to each. -/
structure Counting where
  requests : List CountRequest
  count : Option ℕ

/-- A key that counts as true. -/
def hasKey (lastEvaluatedKey : Option RawKey) : Bool :=
  lastEvaluatedKey.any fun key => !key.isEmpty

/-- The loop of `query_count`, for the responses to come. -/
def countLoop (request : Option RawKey → CountRequest) :
    List CountPage → ℕ → Option RawKey → Counting
  | [], _, lastEvaluatedKey => ⟨[request lastEvaluatedKey], none⟩
  | page :: pages, countBuffer, lastEvaluatedKey =>
      let countBuffer := countBuffer + page.count.getD 0
      if hasKey page.lastEvaluatedKey && !decide (countBuffer < 1) then
        let rest := countLoop request pages countBuffer page.lastEvaluatedKey
        { rest with requests := request lastEvaluatedKey :: rest.requests }
      else ⟨[request lastEvaluatedKey], some countBuffer⟩

/-- A request of `query_count` after a key. -/
def countRequest (tableName : Text) (arguments : CountArguments)
    (keyConditions : OrderedDict Text Lookup) (queryFilter : Option (OrderedDict Text Lookup))
    (lastEvaluatedKey : Option RawKey) : CountRequest where
  tableName := tableName
  indexName := arguments.index
  consistentRead := arguments.consistent
  select := "COUNT".toList
  keyConditions := keyConditions
  queryFilter := queryFilter
  conditionalOperator := arguments.conditionalOperator
  limit := arguments.limit
  scanIndexForward := arguments.scanIndexForward
  exclusiveStartKey := lastEvaluatedKey

/-- `query_count`, for the responses that are received. -/
def queryCount (encoding : FilterEncoding) (tableName : Text) (arguments : CountArguments)
    (pages : List CountPage) : Except FilterError Counting := do
  let keyConditions ← encoding.buildFilters queryOperators arguments.filterKwargs
  let queryFilter ← arguments.queryFilter.mapM (encoding.buildFilters filterOperators)
  return countLoop (countRequest tableName arguments keyConditions queryFilter) pages 0
    arguments.exclusiveStartKey

/-! ## Pages -/

/-- A page before the last one: a count and a key. -/
structure EarlierPage where
  count : Option ℕ
  key : RawKey
  key_ne_nil : key ≠ []

/-- The responses of some pages. -/
def responses (earlier : List EarlierPage) (last : Option ℕ) : List CountPage :=
  (earlier.map fun page => ⟨page.count, some page.key⟩) ++ [⟨last, none⟩]

/-- The requests that follow the keys. -/
def keyRequests (request : Option RawKey → CountRequest) (start : Option RawKey)
    (earlier : List EarlierPage) : List CountRequest :=
  (start :: earlier.map fun page => some page.key).map request

/-- All matches of the pages. -/
def matchCount (earlier : List EarlierPage) (last : Option ℕ) : ℕ :=
  (earlier.map fun page => page.count.getD 0).sum + last.getD 0

variable {request : Option RawKey → CountRequest} {earlier : List EarlierPage}
  {last : Option ℕ} {countBuffer : ℕ} {start : Option RawKey}

theorem hasKey_key (page : EarlierPage) : hasKey (some page.key) = true := by
  obtain ⟨count, key, hkey⟩ := page
  cases key with
  | nil => exact absurd rfl hkey
  | cons item key => rfl

/-- Once something has been counted, all pages are. -/
theorem countLoop_of_pos (hpos : 0 < countBuffer) :
    countLoop request (responses earlier last) countBuffer start =
      ⟨keyRequests request start earlier, some (countBuffer + matchCount earlier last)⟩ := by
  induction earlier generalizing countBuffer start with
  | nil => simp [responses, countLoop, hasKey, keyRequests, matchCount]
  | cons page earlier ih =>
      have hmore : ¬countBuffer + page.count.getD 0 < 1 := by omega
      have hrest := @ih (countBuffer + page.count.getD 0) (some page.key) (by omega)
      rw [responses] at hrest
      rw [responses, List.map_cons, List.cons_append, countLoop]
      simp only [hasKey_key, hmore, decide_false, Bool.not_false, Bool.and_self, if_true, hrest]
      simp [keyRequests, matchCount, Nat.add_assoc]

/-- The first page decides: the count is right if it is the only page or has a match. -/
theorem countLoop_exact_iff :
    countLoop request (responses earlier last) 0 start =
        ⟨keyRequests request start earlier, some (matchCount earlier last)⟩ ↔
      ∀ page ∈ earlier.head?, 0 < page.count.getD 0 := by
  cases earlier with
  | nil => simp [responses, countLoop, hasKey, keyRequests, matchCount]
  | cons page earlier =>
      rw [List.head?_cons, responses, List.map_cons, List.cons_append, countLoop]
      simp only [hasKey_key, Nat.zero_add, Bool.true_and, Option.mem_some_iff, forall_eq']
      by_cases hpos : 0 < page.count.getD 0
      · have hrest := @countLoop_of_pos request earlier last _ (some page.key) hpos
        rw [responses] at hrest
        refine iff_of_true ?_ hpos
        rw [if_pos (by simp; omega), hrest]
        simp [keyRequests, matchCount, Nat.add_assoc]
      · refine iff_of_false ?_ hpos
        rw [if_neg (by simpa using hpos)]
        intro heq
        have hlength := congrArg (fun counting => counting.requests.length) heq
        simp [keyRequests] at hlength

/-- `query_count` counts the matches of all pages and asks for each page after the key of the
page before just if the first page is the last one or has a match. -/
theorem queryCount_exact_iff (encoding : FilterEncoding) (tableName : Text)
    (arguments : CountArguments) (keyConditions : OrderedDict Text Lookup)
    (queryFilter : Option (OrderedDict Text Lookup)) (earlier : List EarlierPage)
    (last : Option ℕ)
    (hconditions :
      encoding.buildFilters queryOperators arguments.filterKwargs = .ok keyConditions)
    (hfilter :
      arguments.queryFilter.mapM (encoding.buildFilters filterOperators) = .ok queryFilter) :
    queryCount encoding tableName arguments (responses earlier last) =
        .ok ⟨keyRequests (countRequest tableName arguments keyConditions queryFilter)
          arguments.exclusiveStartKey earlier, some (matchCount earlier last)⟩ ↔
      ∀ page ∈ earlier.head?, 0 < page.count.getD 0 := by
  rw [queryCount, hconditions, hfilter, ← countLoop_exact_iff]
  exact ⟨Except.ok.inj, congrArg _⟩

/-- A count without conditions. -/
def countAll : CountArguments where
  filterKwargs := OrderedDict.empty

/-- A page before the last one. -/
def countPage (count : ℕ) : EarlierPage where
  count := some count
  key := [("id".toList, .s "a".toList)]
  key_ne_nil := by simp

/-- No filter matches on the second page. -/
theorem queryCount_exact_empty_page :
    queryCount FilterEncoding.standard "users".toList countAll
        (responses [countPage 2, countPage 0] (some 1)) =
      .ok ⟨keyRequests (countRequest "users".toList countAll OrderedDict.empty none) none
        [countPage 2, countPage 0], some 3⟩ :=
  (queryCount_exact_iff FilterEncoding.standard "users".toList countAll OrderedDict.empty none
    [countPage 2, countPage 0] (some 1) rfl rfl).mpr (by simp [countPage])

/-- No filter matches on the first page, and the matches behind it are not counted. -/
theorem queryCount_stops_early :
    (queryCount FilterEncoding.standard "users".toList countAll
        (responses [countPage 0] (some 1))).map Counting.count = .ok (some 0) ∧
      matchCount [countPage 0] (some 1) = 1 :=
  ⟨rfl, rfl⟩

end Boto.DynamoDB2
