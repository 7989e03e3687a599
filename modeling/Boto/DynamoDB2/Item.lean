import Boto.Support.Dict
import Boto.Support.Programs
import Boto.DynamoDB2.Values

/-!
# Items

`Item` of `boto/dynamodb2/items.py`: its change tracking, what `save` and
`partial_save` make of an item, and the requests that they send.  The service keeps
the attributes of each item under its key, and does what a request asks for if the
expectations of the request hold.
-/

namespace Boto.DynamoDB2

open EStateM

/-- The part of a `Table` that items use: its dynamizer and its key fields. -/
structure Table where
  useBoolean : Bool
  keyFields : List Text

/-- The fields of an item with their values. -/
abbrev Data := Dict Text Value

/-- The attributes of an item as they are sent and stored. -/
abbrev Attributes := Dict Text Wire

/-- `Item`, less its table. -/
structure Item where
  data : Data
  origData : Data

/-- Why a save raises. -/
inductive SaveError
  | encode (error : EncodeError)
  | unknownKey (key : Text)
  | validation
  | conditionalCheckFailed
  deriving DecidableEq, Repr

/-- An entry of the `attribute_updates` of a request. -/
inductive Action
  | put (value : Wire)
  | delete
  deriving DecidableEq

/-- An entry of the `expected` of a request. -/
structure Expectation where
  exist : Bool
  value : Option Wire
  deriving DecidableEq

/-- What `_determine_alterations` returns. -/
structure Alterations where
  adds : Data
  changes : Data
  deletes : Dict Text Unit

namespace Item

/-- `Item.__init__` with data. -/
def init (data : Data) (loaded : Bool) : Item where
  data := data
  origData := if loaded then data else .empty

/-- `load`. -/
def load (attributes : Attributes) : Item :=
  let data := attributes.filterMap fun _ value => some value.decode
  { data := data, origData := data }

/-- `self[key] = value`. -/
def setItem (self : Item) (key : Text) (value : Value) : Item :=
  { self with data := self.data.set key value }

/-- `del self[key]`. -/
def delItem (self : Item) (key : Text) : Item :=
  { self with data := self.data.erase key }

/-- `mark_clean`. -/
def markClean (self : Item) : Item :=
  { self with origData := self.data }

/-- `self._data[key] != self._orig_data[key]`, for a key of both. -/
def differs (self : Item) (key : Text) (value : Value) : Bool :=
  match self.origData.get? key with
  | none => false
  | some orig => !value.eq orig

/-- `_determine_alterations`. -/
def determineAlterations (self : Item) : Alterations where
  adds := self.data.filterMap fun key value =>
    if (self.origData.get? key).isNone && value.isStorable then some value
    else none
  changes := self.data.filterMap fun key value =>
    if self.differs key value && value.isStorable then some value else none
  deletes :=
    (self.data.filterMap fun key value =>
      if self.differs key value && !value.isStorable then some () else none).union
    (self.origData.filterMap fun key _ =>
      if (self.data.get? key).isNone then some () else none)

/-- `needs_save`. -/
def needsSave (self : Item) : Bool :=
  let data := self.determineAlterations
  !data.adds.items.isEmpty || !data.changes.items.isEmpty ||
    !data.deletes.items.isEmpty

variable (table : Table)

/-- What `prepare_full` does with a value. -/
def storedForm (value : Value) : Except EncodeError (Option Wire) :=
  if value.isStorable then (value.encode table.useBoolean).map some else .ok none

/-- `prepare_full`. -/
def prepareFull (self : Item) : Except EncodeError Attributes :=
  self.data.filterMapM fun _ value => storedForm table value

/-- `{'Action': 'PUT', 'Value': self._dynamizer.encode(value)}`. -/
def putAction (value : Value) : Except EncodeError (Option Action) :=
  (value.encode table.useBoolean).map fun value => some (.put value)

/-- `prepare_partial`.  The fields that it also returns are the keys of the data. -/
def preparePartial (self : Item) : Except EncodeError (Dict Text Action) := do
  let alterations := self.determineAlterations
  let adds ← alterations.adds.filterMapM fun _ value => putAction table value
  let changes ← alterations.changes.filterMapM fun _ value => putAction table value
  let deletes := alterations.deletes.filterMap fun _ _ => some Action.delete
  return (adds.union changes).union deletes

/-- The value that `build_expects` expects of a field, if the field is to exist.  The
value of an unchanged field is the current one. -/
def expectedValue (self : Item) (key : Text) : Except SaveError (Option Value) :=
  match self.origData.get? key, self.data.get? key with
  | none, none => .error (.unknownKey key)
  | none, some _ => .ok none
  | some orig, none => .ok (some orig)
  | some orig, some current =>
      .ok (some (if orig.eq current then current else orig))

/-- The expectation of a field. -/
def expectation (self : Item) (key : Text) : Except SaveError Expectation := do
  match ← self.expectedValue key with
  | none => return { exist := false, value := none }
  | some (.scalar .none) => return { exist := true, value := none }
  | some value =>
      match value.encode table.useBoolean with
      | .error error => throw (.encode error)
      | .ok value => return { exist := true, value := some value }

/-- `build_expects` for some fields. -/
def buildExpects (self : Item) (fields : Dict Text Unit) :
    Except SaveError (Dict Text Expectation) :=
  fields.filterMapM fun key _ => (self.expectation table key).map some

/-- The fields of `build_expects` when none are given. -/
def allFields (self : Item) : Dict Text Unit :=
  (self.data.filterMap fun _ _ => some ()).union
    (self.origData.filterMap fun _ _ => some ())

/-- `_encode_keys(self.get_keys())`, in the order of the key fields.  A missing
field is `None`. -/
def rawKey (self : Item) : Except SaveError (List Wire) :=
  table.keyFields.mapM fun key =>
    (((self.data.get? key).getD (.scalar .none)).encode
      table.useBoolean).mapError .encode

end Item

/-! ## Requests -/

/-- A `put_item` request. -/
structure Put where
  attributes : Attributes
  expects : Dict Text Expectation

/-- An `update_item` request. -/
structure Update where
  key : List Wire
  actions : Dict Text Action
  expects : Dict Text Expectation

namespace Item

variable (table : Table)

/-- `save` up to its request, if it sends one. -/
def fullPut (self : Item) (overwrite : Bool) : Except SaveError (Option Put) :=
  if !self.needsSave && !overwrite then .ok none
  else do
    let attributes ← (self.prepareFull table).mapError SaveError.encode
    let expects ←
      if overwrite then .ok .empty else self.buildExpects table self.allFields
    return some { attributes := attributes, expects := expects }

/-- `partial_save` up to its request, if it sends one.  The key fields are removed
from what was altered. -/
def partialUpdate (self : Item) : Except SaveError (Option Update) := do
  let finalData ← (self.preparePartial table).mapError SaveError.encode
  if finalData.items.isEmpty then return none
  else
    let actions := finalData.filterMap fun key action =>
      if table.keyFields.contains key then none else some action
    let expects ← self.buildExpects table (actions.filterMap fun _ _ => some ())
    let key ← self.rawKey table
    return some { key := key, actions := actions, expects := expects }

end Item

/-! ## The service -/

/-- The value of a key attribute. -/
inductive KeyValue
  | n (value : ℚ)
  | s (value : Text)
  | b (value : Bytes)
  deriving DecidableEq

/-- The attributes that the service takes as keys: numbers, and texts and binary
values that are not empty. -/
def Wire.toKey : Wire → Option KeyValue
  | .n value => some (.n value)
  | .s value => if value.isEmpty then none else some (.s value)
  | .b value => if value.isEmpty then none else some (.b value)
  | _ => none

/-- The items of the table by their keys.  An item that is missing has no
attributes. -/
abbrev Store := List KeyValue → Attributes

/-- The store with an item replaced. -/
def Store.replace (store : Store) (key : List KeyValue) (attributes : Attributes) :
    Store := fun key' => if key' = key then attributes else store key'

/-- An expectation of an attribute that is to exist gives its value; one of an
attribute that is not to exist gives none. -/
def Expectation.holds (expectation : Expectation) (stored : Option Wire) : Bool :=
  match expectation.exist, expectation.value with
  | true, some value => decide (stored = some value)
  | false, none => stored.isNone
  | _, _ => false

/-- The expectations of a request, with the attributes that the service had for the
item then. -/
structure Expected where
  expects : Dict Text Expectation
  current : Attributes

/-- Each expectation is well formed and true. -/
def Expected.holds (expected : Expected) : Bool :=
  expected.expects.items.all fun item =>
    item.2.holds (expected.current.get? item.1)

/-- An item, the items of the service, and the requests made so far. -/
structure World where
  item : Item
  store : Store
  requests : List Expected

/-- A request for the item with the given key, if it is one, to get the given
attributes. -/
def request (key : Option (List KeyValue)) (expects : Dict Text Expectation)
    (attributes : Attributes → Attributes) : EStateM SaveError World Unit := do
  let store := (← get).store
  let current := (key.map store).getD .empty
  let expected := { expects := expects, current := current }
  modify fun world => { world with requests := world.requests ++ [expected] }
  match key with
  | none => throw .validation
  | some key =>
      if expected.holds then
        modify fun world =>
          { world with store := store.replace key (attributes current) }
      else throw .conditionalCheckFailed

/-- Attributes with the actions of an update applied. -/
def altered (actions : Dict Text Action) (attributes : Attributes) : Attributes :=
  attributes.overlay <| actions.filterMap fun _ action =>
    match action with
    | .put value => some (some value)
    | .delete => some none

namespace Table

variable (table : Table)

/-- The key of an item with the given attributes. -/
def keyOf (attributes : Attributes) : Option (List KeyValue) :=
  table.keyFields.mapM fun key => (attributes.get? key).bind Wire.toKey

/-- `connection.put_item`. -/
def putItem (put : Put) : EStateM SaveError World Unit :=
  request (table.keyOf put.attributes) put.expects fun _ => put.attributes

/-- The attributes of an item after an update, which has the key of the update. -/
def updated (update : Update) (current : Attributes) : Attributes :=
  (table.keyFields.zip update.key).foldl
    (fun attributes item => attributes.set item.1 item.2)
    (altered update.actions current)

/-- `connection.update_item`. -/
def updateItem (update : Update) : EStateM SaveError World Unit :=
  request (update.key.mapM Wire.toKey) update.expects (table.updated update)

end Table

/-! ## Saving -/

namespace World

variable (table : Table)

/-- `save`. -/
def save (overwrite : Bool) : EStateM SaveError World Bool := do
  match ← MonadExcept.ofExcept ((← get).item.fullPut table overwrite) with
  | none => return false
  | some put =>
      table.putItem put
      modify fun world => { world with item := world.item.markClean }
      return true

/-- `partial_save`. -/
def partialSave : EStateM SaveError World Bool := do
  match ← MonadExcept.ofExcept ((← get).item.partialUpdate table) with
  | none => return false
  | some update =>
      table.updateItem update
      modify fun world => { world with item := world.item.markClean }
      return true

end World

end Boto.DynamoDB2
