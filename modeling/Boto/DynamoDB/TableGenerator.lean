import Boto.DynamoDB.Layer2
import Mathlib.Data.Int.Notation

/-!
# Results in pages

`TableGenerator` of `boto/dynamodb/layer2.py`.  The generator asks for a page when it needs
one, and its consumer may ask for the next one while it waits for an item to be taken.  An
iteration goes on in small steps, so that a consumer can do so between any two items.
-/

namespace Boto.DynamoDB

variable {α Value Payload : Type}

/-- A last evaluated key, decoded. -/
structure LastKey (Value : Type) where
  hashKeyElement : Value
  rangeKeyElement : Option Value
  deriving DecidableEq

/-- `dynamize_last_evaluated_key`. -/
def Layer2.dynamizeLastEvaluatedKey (layer2 : Layer2 Value Payload) (lastKey : LastKey Value) :
    Except PyError (DynamoDBKey Payload) := do
  let hashKeyElement ← layer2.encode lastKey.hashKeyElement
  match lastKey.rangeKeyElement with
  | none => return { hashKeyElement := hashKeyElement, rangeKeyElement := none }
  | some rangeKey => return {
      hashKeyElement := hashKeyElement
      rangeKeyElement := some (← layer2.encode rangeKey) }

/-- A response to a query or a scan. -/
structure PageResponse (α Value : Type) where
  items : List α
  count : ℕ
  scannedCount : ℕ
  lastEvaluatedKey : Option (LastKey Value)

/-- A service, whose answers may differ from call to call. -/
abbrev PageService (α Value Payload : Type) :=
  ℕ → Option (DynamoDBKey Payload) → Option ℤ → PageResponse α Value

/-- `TableGenerator`, with `limit` and `exclusive_start_key` of its `kwargs`.  A response has
the number of its call, by which it is told from others. -/
structure TableGenerator (α Value Payload : Type) where
  remaining : ℤ
  limit : Option ℤ
  exclusiveStartKey : Option (DynamoDBKey Payload)
  lastEvaluatedKey : Option (LastKey Value)
  count : ℕ
  scannedCount : ℕ
  response : Option (ℕ × PageResponse α Value)
  calls : ℕ

namespace TableGenerator

/-- `__init__`. -/
def init (remaining : Option ℕ) (limit : Option ℤ)
    (exclusiveStartKey : Option (DynamoDBKey Payload)) : TableGenerator α Value Payload where
  remaining :=
    match remaining with
    | none => -1
    | some remaining => remaining
  limit := limit
  exclusiveStartKey := exclusiveStartKey
  lastEvaluatedKey := none
  count := 0
  scannedCount := 0
  response := none
  calls := 0

/-- The limit of the next call. -/
def askedLimit (generator : TableGenerator α Value Payload) : Option ℤ :=
  if 0 < generator.remaining then
    match generator.limit with
    | none => some generator.remaining
    | some limit => if generator.remaining < limit then some generator.remaining else some limit
  else generator.limit

variable (layer2 : Layer2 Value Payload) (service : PageService α Value Payload)

/-- `next_response`. -/
def nextResponse (generator : TableGenerator α Value Payload) :
    Except PyError (TableGenerator α Value Payload) := do
  let limit := generator.limit
  let generator := { generator with limit := generator.askedLimit }
  let response := service generator.calls generator.exclusiveStartKey generator.limit
  let generator := {
    generator with
    response := some (generator.calls, response)
    calls := generator.calls + 1
    limit := limit
    count := generator.count + response.count
    scannedCount := generator.scannedCount + response.scannedCount }
  match response.lastEvaluatedKey with
  | none => return { generator with lastEvaluatedKey := none }
  | some lastKey =>
      let startKey ← layer2.dynamizeLastEvaluatedKey lastKey
      return {
        generator with
        exclusiveStartKey := some startKey
        lastEvaluatedKey := some lastKey }

/-- The number of the current response. -/
def current (generator : TableGenerator α Value Payload) : Option ℕ :=
  generator.response.map Prod.fst

end TableGenerator

/-- Where an iteration is: before its first item, at the test of the loop, in the loop over
the items of a response, after it has yielded an item of a response, or at its end. -/
inductive Point (α : Type)
  | start
  | loop
  | items (response : ℕ) (left : List α)
  | yielded (response : ℕ) (left : List α)
  | done

/-- An iteration, with the pages it was answered, what it asked for when it had yielded so
many items, and the items it yielded of which response. -/
structure Iteration (α Value Payload : Type) where
  generator : TableGenerator α Value Payload
  point : Point α
  pages : List (List α)
  asked : List (Option ℤ × ℕ)
  yields : List (ℕ × α)

namespace Iteration

/-- An iteration that has not begun. -/
def init (generator : TableGenerator α Value Payload) : Iteration α Value Payload where
  generator := generator
  point := .start
  pages := []
  asked := []
  yields := []

variable (layer2 : Layer2 Value Payload) (service : PageService α Value Payload)

/-- A call of `next_response`, unless it fails. -/
def fetch (it : Iteration α Value Payload) : Option (Iteration α Value Payload) := do
  let generator ← (it.generator.nextResponse layer2 service).toOption
  let (_, response) ← generator.response
  return {
    it with
    generator := generator
    pages := it.pages ++ [response.items]
    asked := it.asked ++ [(it.generator.askedLimit, it.yields.length)] }

/-- What happens to an iteration: it goes on, or the consumer asks for the next response. -/
inductive Action
  | advance
  | nextResponse
  deriving DecidableEq

/-- `self.response`, which is asked for if there is none. -/
def response (it : Iteration α Value Payload) : Option (Iteration α Value Payload) :=
  if it.generator.response.isNone then it.fetch layer2 service else some it

/-- The head of the loop in `__iter__`. -/
def enter (it : Iteration α Value Payload) : Option (Iteration α Value Payload) :=
  if it.generator.remaining = 0 then some { it with point := .done }
  else do
    let it ← it.response layer2 service
    let (response, page) ← it.generator.response
    return { it with point := .items response page.items }

/-- `__iter__`, from one point to the next. -/
def advance (it : Iteration α Value Payload) : Option (Iteration α Value Payload) :=
  match it.point with
  | .start => it.enter layer2 service
  | .loop => it.enter layer2 service
  | .items response (item :: left) =>
      some {
        it with
        generator := { it.generator with remaining := it.generator.remaining - 1 }
        yields := it.yields ++ [(response, item)]
        point := .yielded response left }
  | .items _ [] =>
      if it.generator.lastEvaluatedKey.isSome then do
        let it ← it.fetch layer2 service
        return { it with point := .loop }
      else some { it with point := .done }
  | .yielded response left =>
      let replaced := it.generator.current ≠ some response
      if it.generator.remaining = 0 ∨ replaced then
        if replaced then some { it with point := .loop } else some { it with point := .done }
      else some { it with point := .items response left }
  | .done => none

/-- A step: the consumer can only ask while the iteration waits for it. -/
def step (it : Iteration α Value Payload) : Action → Option (Iteration α Value Payload)
  | .advance => it.advance layer2 service
  | .nextResponse =>
      match it.point with
      | .start => it.fetch layer2 service
      | .yielded _ _ => it.fetch layer2 service
      | _ => none

end Iteration

end Boto.DynamoDB
