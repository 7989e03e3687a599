import Boto.Python
import Boto.Support.LastEntries
import Boto.Support.OrderedDict

/-!
# Keys and items of the first DynamoDB interface

What `boto/dynamodb/layer2.py` makes of the values of keys and items.  How a single value
is encoded is left to the dynamizer.
-/

namespace Boto.DynamoDB

variable {Value Payload : Type}

/-- A typed value as it is sent. -/
structure Wire (Payload : Type) where
  type : Text
  payload : Payload
  deriving DecidableEq

/-- `Schema`, by the names and types of the keys. -/
structure Schema where
  hashKeyName : Text
  hashKeyType : Text
  rangeKeyName : Option Text
  rangeKeyType : Option Text

/-- `Table`, as far as requests need it. -/
structure Table where
  name : Text
  schema : Schema

/-- A key as it is sent. -/
structure DynamoDBKey (Payload : Type) where
  hashKeyElement : Wire Payload
  rangeKeyElement : Option (Wire Payload)
  deriving DecidableEq

/-- `Layer2`, by the encoder of its dynamizer and the tables that the service
describes. -/
structure Layer2 (Value Payload : Type) where
  encode : Value → Except PyError (Wire Payload)
  getTable : Text → Table
  getTable_name : ∀ name, (getTable name).name = name

namespace Layer2

variable (layer2 : Layer2 Value Payload)

/-- `build_key_from_values`. -/
def buildKeyFromValues (schema : Schema) (hashKey : Value) (rangeKey : Option Value) :
    Except PyError (DynamoDBKey Payload) := do
  let hashKeyElement ← layer2.encode hashKey
  if hashKeyElement.type ≠ schema.hashKeyType then
    .error (.typeError ("Hashkey must be of type: " ++ String.ofList schema.hashKeyType))
  else
    match rangeKey with
    | none => return { hashKeyElement := hashKeyElement, rangeKeyElement := none }
    | some rangeKey =>
        let rangeKeyElement ← layer2.encode rangeKey
        if some rangeKeyElement.type ≠ schema.rangeKeyType then
          .error (.typeError ("RangeKey must be of type: " ++
            String.ofList (schema.rangeKeyType.getD "None".toList)))
        else
          return {
            hashKeyElement := hashKeyElement
            rangeKeyElement := some rangeKeyElement }

/-- `dynamize_item`. -/
def dynamizeItem (item : OrderedDict Text Value) :
    Except PyError (List (Text × Wire Payload)) :=
  item.items.mapM fun entry => do
    let value ← layer2.encode entry.2
    return (entry.1, value)

end Layer2

/-- Texts, and tables whose key is a text. -/
def textLayer2 : Layer2 Text Text where
  encode value := .ok ⟨"S".toList, value⟩
  getTable name := ⟨name, ⟨"id".toList, "S".toList, none, none⟩⟩
  getTable_name _ := rfl

/-- A table of texts. -/
def textTable : Table := textLayer2.getTable "users".toList

end Boto.DynamoDB

/-!
## Batches

`boto/dynamodb/batch.py`.  Batches are kept in a list, and a request is a dictionary by the
name of the table, so that a table that occurs again takes the place of the first one.
-/

namespace Boto.DynamoDB

variable {Value Payload : Type} (layer2 : Layer2 Value Payload)

/-- A key of a batch: a scalar, or a tuple. -/
inductive BatchKey (Value : Type)
  | scalar (hashKey : Value)
  | pair (hashKey : Value) (rangeKey : Option Value)

/-- The key as it is sent. -/
def BatchKey.build (schema : Schema) :
    BatchKey Value → Except PyError (DynamoDBKey Payload)
  | .scalar hashKey => layer2.buildKeyFromValues schema hashKey none
  | .pair hashKey rangeKey => layer2.buildKeyFromValues schema hashKey rangeKey

/-! ## Reading -/

/-- `Batch`. -/
structure Batch (Value : Type) where
  table : Table
  keys : List (BatchKey Value)
  attributesToGet : Option (List Text)
  consistentRead : Bool

/-- What is asked of a table. -/
structure BatchDict (Payload : Type) where
  keys : List (DynamoDBKey Payload)
  attributesToGet : Option (List Text)
  consistentRead : Bool

/-- `Batch.to_dict`. -/
def Batch.toDict (batch : Batch Value) : Except PyError (BatchDict Payload) := do
  let keys ← batch.keys.mapM (BatchKey.build layer2 batch.table.schema)
  return {
    keys := keys
    attributesToGet := batch.attributesToGet.filter fun names => !names.isEmpty
    consistentRead := batch.consistentRead }

/-- The unprocessed keys of a table, with what else the service repeats of its request. -/
structure TableRequest (Value : Type) where
  keys : List (Value × Option Value)
  attributesToGet : Option (List Text)
  consistentRead : Option Bool

/-- A response, where the unprocessed keys may be missing. -/
structure Response (Value : Type) where
  unprocessedKeys : Option (OrderedDict Text (TableRequest Value))

/-- `BatchList`. -/
structure BatchList (Value : Type) where
  batches : List (Batch Value)
  unprocessed : Option (OrderedDict Text (TableRequest Value))

namespace BatchList

/-- `BatchList.__init__`. -/
def init : BatchList Value where
  batches := []
  unprocessed := none

/-- `add_batch`. -/
def addBatch (list : BatchList Value) (table : Table) (keys : List (BatchKey Value))
    (attributesToGet : Option (List Text)) (consistentRead : Bool) : BatchList Value :=
  { list with batches := list.batches ++ [⟨table, keys, attributesToGet, consistentRead⟩] }

/-- `to_dict`. -/
def toDict (list : BatchList Value) :
    Except PyError (OrderedDict Text (BatchDict Payload)) := do
  let entries ← list.batches.mapM fun batch => do
    return (batch.table.name, ← batch.toDict layer2)
  return OrderedDict.ofEntries (entries.filter fun entry => !entry.2.keys.isEmpty)

/-- The list after a response. -/
def receive (list : BatchList Value) (response : Response Value) : BatchList Value :=
  match response.unprocessedKeys with
  | some unprocessedKeys => { list with unprocessed := some unprocessedKeys }
  | none => list

/-- A call of `submit` or `resubmit`: the request that is sent, if any, what is returned, and
the list after it. -/
structure Submission (Value Payload : Type) where
  sent : Option (OrderedDict Text (BatchDict Payload))
  returned : Option (Response Value)
  list : BatchList Value

/-- `submit`, where an empty request is answered without the service. -/
def submit (service : OrderedDict Text (BatchDict Payload) → Response Value)
    (list : BatchList Value) : Except PyError (Submission Value Payload) := do
  let request ← list.toDict layer2
  if request.items = [] then
    return { sent := none, returned := some ⟨none⟩, list := list }
  else
    let response := service request
    return {
      sent := some request
      returned := some response
      list := list.receive response }

/-- The batch that `resubmit` adds for a table, which is not a consistent read. -/
def rebuiltBatch (table : Text × TableRequest Value) : Batch Value where
  table := layer2.getTable table.1
  keys := table.2.keys.map fun key => .pair key.1 key.2
  attributesToGet := table.2.attributesToGet
  consistentRead := false

/-- The batches that `resubmit` adds. -/
def rebuilt (unprocessed : OrderedDict Text (TableRequest Value)) : List (Batch Value) :=
  unprocessed.items.map (rebuiltBatch layer2)

/-- `resubmit`. -/
def resubmit (service : OrderedDict Text (BatchDict Payload) → Response Value)
    (list : BatchList Value) : Except PyError (Submission Value Payload) :=
  match list.unprocessed with
  | none => .ok { sent := none, returned := none, list := { list with batches := [] } }
  | some unprocessed =>
      if unprocessed.items = [] then
        .ok { sent := none, returned := none, list := { list with batches := [] } }
      else submit layer2 service { list with batches := rebuilt layer2 unprocessed }

end BatchList

/-! ## Writing -/

/-- An operation of a request. -/
inductive WriteOp (Payload : Type)
  | putRequest (item : List (Text × Wire Payload))
  | deleteRequest (key : DynamoDBKey Payload)

/-- `BatchWrite`. -/
structure BatchWrite (Value : Type) where
  table : Table
  puts : List (OrderedDict Text Value)
  deletes : List (BatchKey Value)

/-- `BatchWrite.to_dict`. -/
def BatchWrite.toDict (batch : BatchWrite Value) :
    Except PyError (Text × List (WriteOp Payload)) := do
  let puts ← batch.puts.mapM layer2.dynamizeItem
  let deletes ← batch.deletes.mapM (BatchKey.build layer2 batch.table.schema)
  return (batch.table.name, puts.map .putRequest ++ deletes.map .deleteRequest)

/-- `BatchWriteList.to_dict`. -/
def BatchWriteList.toDict (list : List (BatchWrite Value)) :
    Except PyError (OrderedDict Text (List (WriteOp Payload))) := do
  let entries ← list.mapM (BatchWrite.toDict layer2)
  return OrderedDict.ofEntries entries

end Boto.DynamoDB
