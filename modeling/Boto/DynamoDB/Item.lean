import Boto.DynamoDB.Layer2
import Boto.Support.LastEntries
import Boto.Support.ListResults

/-!
# Items and their pending updates

`boto/dynamodb/item.py` and `Layer2.update_item`.  An item is a dictionary that records what
is done to it, from the point of its constructor on where it has a dictionary to record it
in.
-/

namespace Boto.DynamoDB

open ListResults

variable {Value Payload Answer : Type}

/-- What an update does to an attribute. -/
inductive Action
  | add
  | delete
  | put
  deriving DecidableEq

/-- A pending update of an attribute. -/
structure Update (Value : Type) where
  action : Action
  value : Option Value
  deriving DecidableEq

/-- `Item`, with its dictionary and `_updates`. -/
structure Item (Value : Type) where
  table : Table
  attrs : OrderedDict Text (Option Value)
  updates : Option (OrderedDict Text (Update Value))

namespace Item

/-- A method of an item. -/
abbrev Method (Value α : Type) := EStateM PyError (Item Value) α

/-- `self._updates[attr_name] = update`. -/
def queue (attrName : Text) (update : Update Value) : Method Value Unit := fun item =>
  match item.updates with
  | none => .error (.typeError "'NoneType' object does not support item assignment") item
  | some updates => .ok () { item with updates := some (updates.set attrName update) }

/-- `add_attribute`. -/
def addAttribute (attrName : Text) (attrValue : Option Value) : Method Value Unit :=
  queue attrName ⟨.add, attrValue⟩

/-- `delete_attribute`. -/
def deleteAttribute (attrName : Text) (attrValue : Option Value) : Method Value Unit :=
  queue attrName ⟨.delete, attrValue⟩

/-- `put_attribute`. -/
def putAttribute (attrName : Text) (attrValue : Option Value) : Method Value Unit :=
  queue attrName ⟨.put, attrValue⟩

/-- `__setitem__`. -/
def setItem (key : Text) (value : Option Value) : Method Value Unit := do
  if (← get).updates.isSome then putAttribute key value
  modify fun item => { item with attrs := item.attrs.set key value }

/-- `__delitem__`. -/
def delItem (key : Text) : Method Value Unit := do
  if (← get).updates.isSome then deleteAttribute key none
  if (← get).attrs.contains key then
    modify fun item => { item with attrs := item.attrs.erase key }
  else throw .keyError

/-- The loop over the attributes in `__init__`. -/
def setAttributes (schema : Schema) :
    List (Text × Option Value) → Method Value Unit
  | [] => return
  | (key, value) :: attrs => do
      if key ≠ schema.hashKeyName ∧ some key ≠ schema.rangeKeyName then setItem key value
      setAttributes schema attrs

/-- `__init__`, after the table has been set and `_updates` to `None`. -/
def init (hashKey rangeKey : Option Value) (attrs : OrderedDict Text (Option Value)) :
    Method Value Unit := do
  let schema := (← get).table.schema
  setItem schema.hashKeyName (hashKey.or (attrs.get? schema.hashKeyName).join)
  match schema.rangeKeyName with
  | none => pure ()
  | some [] => pure ()
  | some rangeKeyName => setItem rangeKeyName (rangeKey.or (attrs.get? rangeKeyName).join)
  modify fun item => { item with updates := some OrderedDict.empty }
  setAttributes schema attrs.items

/-- An item before its constructor has run. -/
def new (table : Table) : Item Value where
  table := table
  attrs := OrderedDict.empty
  updates := none

/-- The item after a method, which may have failed. -/
def after (method : Method Value Unit) (item : Item Value) : Item Value :=
  match method.run item with
  | .ok _ item => item
  | .error _ item => item

end Item

/-- The item that `get_item` makes of the attributes in a response. -/
def loadedItem (table : Table) (hashKey : Value) (rangeKey : Option Value)
    (attrs : OrderedDict Text (Option Value)) : Item Value :=
  (Item.new table).after (Item.init (some hashKey) rangeKey attrs)

/-- `get_item`, by the attributes that the service has under a key. -/
def Layer2.getItem (layer2 : Layer2 Value Payload)
    (service : DynamoDBKey Payload → Except PyError (OrderedDict Text (Option Value)))
    (table : Table) (hashKey : Value) (rangeKey : Option Value) :
    Except PyError (Item Value) := do
  let key ← layer2.buildKeyFromValues table.schema hashKey rangeKey
  let attrs ← service key
  return loadedItem table hashKey rangeKey attrs

/-! ## Saving -/

/-- An update as it is sent. -/
structure WireUpdate (Payload : Type) where
  action : Action
  value : Option (Wire Payload)
  deriving DecidableEq

/-- What a caller expects of an attribute. -/
inductive Expected (Value : Type)
  | exists (flag : Bool)
  | value (value : Value)

/-- What is expected, as it is sent. -/
inductive WireExpected (Payload : Type)
  | exists (flag : Bool)
  | value (value : Wire Payload)

/-- The arguments of `Layer1.update_item`. -/
structure UpdateRequest (Payload : Type) where
  tableName : Text
  key : DynamoDBKey Payload
  attributeUpdates : OrderedDict Text (WireUpdate Payload)
  expected : Option (OrderedDict Text (WireExpected Payload))
  returnValues : Option Text

namespace Layer2

variable (layer2 : Layer2 Value Payload)

/-- An update in `dynamize_attribute_updates`, where `None` leaves the value out. -/
def dynamizeUpdate (update : Update Value) : Except PyError (WireUpdate Payload) :=
  match update.value with
  | none => return ⟨update.action, none⟩
  | some value => return ⟨update.action, some (← layer2.encode value)⟩

/-- `dynamize_attribute_updates`. -/
def dynamizeAttributeUpdates (pendingUpdates : OrderedDict Text (Update Value)) :
    Except PyError (OrderedDict Text (WireUpdate Payload)) := do
  let entries ← pendingUpdates.items.mapM fun entry =>
    return (entry.1, ← layer2.dynamizeUpdate entry.2)
  return OrderedDict.ofEntries entries

/-- `dynamize_expected_value`. -/
def dynamizeExpectedValue (expectedValue : Option (OrderedDict Text (Expected Value))) :
    Except PyError (Option (OrderedDict Text (WireExpected Payload))) :=
  match expectedValue with
  | none => return none
  | some expectedValue =>
      if expectedValue.items = [] then return none
      else do
        let entries ← expectedValue.items.mapM fun entry =>
          match entry.2 with
          | .exists flag => return (entry.1, .exists flag)
          | .value value => return (entry.1, .value (← layer2.encode value))
        return some (OrderedDict.ofEntries entries)

/-- The key of an item. -/
def itemKey (item : Item Value) : Except PyError (DynamoDBKey Payload) :=
  match item.attrs.get? item.table.schema.hashKeyName with
  | none => .error .keyError
  | some none => .error (.typeError "Unsupported type for value None")
  | some (some hashKey) =>
      layer2.buildKeyFromValues item.table.schema hashKey
        (item.table.schema.rangeKeyName.bind fun name => (item.attrs.get? name).join)

/-- What `update_item` does before it calls the service. -/
def updateRequest (item : Item Value)
    (expectedValue : Option (OrderedDict Text (Expected Value))) (returnValues : Option Text) :
    Except PyError (UpdateRequest Payload) := do
  let expected ← layer2.dynamizeExpectedValue expectedValue
  let key ← layer2.itemKey item
  match item.updates with
  | none => .error (.typeError "'NoneType' object is not iterable")
  | some updates =>
      let attributeUpdates ← layer2.dynamizeAttributeUpdates updates
      return {
        tableName := item.table.name
        key := key
        attributeUpdates := attributeUpdates
        expected := expected
        returnValues := returnValues }

/-- A call of `update_item`: the request that is sent, if any, the answer, and the item after
it. -/
structure Saved (Value Payload Answer : Type) where
  sent : Option (UpdateRequest Payload)
  answer : Except PyError Answer
  item : Item Value

/-- `update_item`, which is what `Item.save` calls. -/
def updateItem (service : UpdateRequest Payload → Except PyError Answer) (item : Item Value)
    (expectedValue : Option (OrderedDict Text (Expected Value))) (returnValues : Option Text) :
    Saved Value Payload Answer :=
  match layer2.updateRequest item expectedValue returnValues with
  | .error e => { sent := none, answer := .error e, item := item }
  | .ok request =>
      match service request with
      | .error e => { sent := some request, answer := .error e, item := item }
      | .ok response => {
          sent := some request
          answer := .ok response
          item := { item with updates := item.updates.map fun _ => OrderedDict.empty } }

end Layer2

end Boto.DynamoDB

/-!
## What saving an item sends

The constructor of an item sets the attributes that it was loaded with while updates are
already recorded.  They are sent with the changes unless a change replaces them.
-/

namespace Boto.DynamoDB

open ListResults

variable {Value Payload Answer : Type}

/-- What a caller does to an item. -/
inductive Call (Value : Type)
  | setItem (key : Text) (value : Option Value)
  | delItem (key : Text)
  | putAttribute (attrName : Text) (attrValue : Option Value)
  | addAttribute (attrName : Text) (attrValue : Option Value)
  | deleteAttribute (attrName : Text) (attrValue : Option Value)
  deriving DecidableEq

namespace Call

/-- The method that is called. -/
def method : Call Value → Item.Method Value Unit
  | setItem key value => Item.setItem key value
  | delItem key => Item.delItem key
  | putAttribute attrName attrValue => Item.putAttribute attrName attrValue
  | addAttribute attrName attrValue => Item.addAttribute attrName attrValue
  | deleteAttribute attrName attrValue => Item.deleteAttribute attrName attrValue

/-- The attribute that a call names. -/
def name : Call Value → Text
  | setItem key _ => key
  | delItem key => key
  | putAttribute attrName _ => attrName
  | addAttribute attrName _ => attrName
  | deleteAttribute attrName _ => attrName

/-- The update that a call asks for. -/
def update : Call Value → Update Value
  | setItem _ value => ⟨.put, value⟩
  | delItem _ => ⟨.delete, none⟩
  | putAttribute _ attrValue => ⟨.put, attrValue⟩
  | addAttribute _ attrValue => ⟨.add, attrValue⟩
  | deleteAttribute _ attrValue => ⟨.delete, attrValue⟩

/-- The update of the last call that names an attribute. -/
def last (calls : List (Call Value)) (name : Text) : Option (Update Value) :=
  OrderedDict.lastEntry name (calls.map fun call => (call.name, call.update))

theorem last_eq_none_iff {calls : List (Call Value)} {name : Text} :
    last calls name = none ↔ ∀ call ∈ calls, call.name ≠ name := by
  rw [last, OrderedDict.lastEntry_eq_none_iff, List.map_map, List.mem_map]
  simp

end Call

namespace Item

/-- The item after some calls. -/
def afterCalls (calls : List (Call Value)) (item : Item Value) : Item Value :=
  calls.foldl (fun item call => item.after call.method) item

variable {item : Item Value} {updates : OrderedDict Text (Update Value)} {key : Text}
  {value : Option Value}

theorem run_setItem_of_some (hupdates : item.updates = some updates) :
    (setItem key value).run item = .ok () {
      item with
      attrs := item.attrs.set key value
      updates := some (updates.set key ⟨.put, value⟩) } := by
  obtain ⟨table, attrs, _⟩ := item
  cases hupdates
  rfl

theorem run_delItem_of_some (hupdates : item.updates = some updates) :
    (delItem key).run item = if item.attrs.contains key then
        .ok () {
          item with
          attrs := item.attrs.erase key
          updates := some (updates.set key ⟨.delete, none⟩) }
      else .error .keyError
        { item with updates := some (updates.set key ⟨.delete, none⟩) } := by
  obtain ⟨table, attrs, _⟩ := item
  cases hupdates
  by_cases hin : attrs.contains key
  · rw [if_pos hin]
    exact congrFun (if_pos hin) _
  · rw [if_neg hin]
    exact congrFun (if_neg hin) _

/-- A call records its update, also if it fails. -/
theorem updates_after_call (hupdates : item.updates = some updates) (call : Call Value) :
    (item.after call.method).updates = some (updates.set call.name call.update) := by
  cases call with
  | delItem key =>
      rw [after, Call.method, run_delItem_of_some hupdates]
      by_cases hin : item.attrs.contains key
      · rw [if_pos hin]
        rfl
      · rw [if_neg hin]
        rfl
  | setItem key value =>
      rw [after, Call.method, run_setItem_of_some hupdates]
      rfl
  | putAttribute name value =>
      obtain ⟨table, attrs, _⟩ := item
      cases hupdates
      rfl
  | addAttribute name value =>
      obtain ⟨table, attrs, _⟩ := item
      cases hupdates
      rfl
  | deleteAttribute name value =>
      obtain ⟨table, attrs, _⟩ := item
      cases hupdates
      rfl

theorem updates_afterCalls (hupdates : item.updates = some updates)
    (calls : List (Call Value)) :
    (item.afterCalls calls).updates =
      some ((calls.map fun call => (call.name, call.update)).foldl
        (fun d entry => d.set entry.1 entry.2) updates) := by
  induction calls generalizing item updates with
  | nil => exact hupdates
  | cons call calls ih => exact ih (updates_after_call hupdates call)

end Item

/-! ## Loading -/

/-- The name of a key. -/
def Schema.IsKey (schema : Schema) (name : Text) : Prop :=
  name = schema.hashKeyName ∨ some name = schema.rangeKeyName

instance (schema : Schema) (name : Text) : Decidable (schema.IsKey name) :=
  inferInstanceAs (Decidable (_ ∨ _))

/-- The updates that the constructor records. -/
def putEntries (schema : Schema) (attrs : List (Text × Option Value)) :
    List (Text × Update Value) :=
  (attrs.filter fun entry => !decide (schema.IsKey entry.1)).map fun entry =>
    (entry.1, ⟨.put, entry.2⟩)

namespace Item

variable {item : Item Value} {updates : OrderedDict Text (Update Value)} {schema : Schema}

theorem run_setAttributes (hupdates : item.updates = some updates)
    (attrs : List (Text × Option Value)) :
    ∃ loaded, (setAttributes schema attrs).run item = .ok () loaded ∧
      loaded.table = item.table ∧
      loaded.updates = some ((putEntries schema attrs).foldl
        (fun d entry => d.set entry.1 entry.2) updates) ∧
      ∀ name, schema.IsKey name → loaded.attrs.get? name = item.attrs.get? name := by
  induction attrs generalizing item updates with
  | nil => exact ⟨item, rfl, rfl, hupdates, fun _ _ => rfl⟩
  | cons entry attrs ih =>
      obtain ⟨key, value⟩ := entry
      by_cases hkey : schema.IsKey key
      · have hrun : (setAttributes schema ((key, value) :: attrs)).run item =
            (setAttributes schema attrs).run item := by
          have hnot : ¬(key ≠ schema.hashKeyName ∧ some key ≠ schema.rangeKeyName) := by
            rw [not_and_or, not_not, not_not]
            exact hkey
          rw [setAttributes, if_neg hnot]
        have hentries : putEntries schema ((key, value) :: attrs) = putEntries schema attrs := by
          rw [putEntries, List.filter_cons_of_neg (by simpa using hkey), putEntries]
        rw [hrun, hentries]
        exact ih hupdates
      · have hnot : key ≠ schema.hashKeyName ∧ some key ≠ schema.rangeKeyName := not_or.mp hkey
        have hentries : putEntries schema ((key, value) :: attrs) =
            (key, ⟨.put, value⟩) :: putEntries schema attrs := by
          rw [putEntries, List.filter_cons_of_pos (by simpa using hkey), putEntries]
          rfl
        let set : Item Value := {
          item with
          attrs := item.attrs.set key value
          updates := some (updates.set key ⟨.put, value⟩) }
        have hrun : (setAttributes schema ((key, value) :: attrs)).run item =
            (setAttributes schema attrs).run set := by
          have hset : (setItem key value).run item = .ok () set := run_setItem_of_some hupdates
          rw [setAttributes, if_pos hnot, EStateM.run_bind, hset]
        obtain ⟨loaded, hloaded, htable, hrecorded, hkeys⟩ := @ih set _ rfl
        rw [hrun, hentries]
        refine ⟨loaded, hloaded, htable, hrecorded, fun name hname => ?_⟩
        rw [hkeys name hname]
        change (item.attrs.set key value).get? name = _
        rw [OrderedDict.get?_set, if_neg]
        rintro rfl
        exact hkey hname

end Item

variable {table : Table} {hashKey : Value} {rangeKey : Option Value}
  {attrs : OrderedDict Text (Option Value)} {calls : List (Call Value)}

/-- The keys of a loaded item. -/
def keyAttrs (schema : Schema) (hashKey : Value) (rangeKey : Option Value)
    (attrs : OrderedDict Text (Option Value)) : OrderedDict Text (Option Value) :=
  let d := OrderedDict.empty.set schema.hashKeyName (some hashKey)
  match schema.rangeKeyName with
  | none => d
  | some [] => d
  | some rangeKeyName => d.set rangeKeyName (rangeKey.or (attrs.get? rangeKeyName).join)

theorem loadedItem_spec :
    (loadedItem table hashKey rangeKey attrs).table = table ∧
      (loadedItem table hashKey rangeKey attrs).updates =
        some (.ofEntries (putEntries table.schema attrs.items)) ∧
      ∀ name, table.schema.IsKey name →
        (loadedItem table hashKey rangeKey attrs).attrs.get? name =
          (keyAttrs table.schema hashKey rangeKey attrs).get? name := by
  have hinit : (Item.init (some hashKey) rangeKey attrs).run (Item.new table) =
      (Item.setAttributes table.schema attrs.items).run {
        table := table
        attrs := keyAttrs table.schema hashKey rangeKey attrs
        updates := some OrderedDict.empty } := by
    obtain ⟨name, hashKeyName, hashKeyType, rangeKeyName, rangeKeyType⟩ := table
    match rangeKeyName with
    | none => rfl
    | some [] => rfl
    | some (c :: cs) => rfl
  obtain ⟨loaded, hrun, htable, hupdates, hkeys⟩ :=
    @Item.run_setAttributes Value {
      table := table
      attrs := keyAttrs table.schema hashKey rangeKey attrs
      updates := some OrderedDict.empty } OrderedDict.empty table.schema rfl attrs.items
  have hloaded : loadedItem table hashKey rangeKey attrs = loaded := by
    rw [loadedItem, Item.after, hinit, hrun]
  rw [hloaded]
  exact ⟨htable, hupdates, hkeys⟩

/-- Every stored attribute that is not a key is named by a call. -/
def NamesAll (schema : Schema) (attrs : OrderedDict Text (Option Value))
    (calls : List (Call Value)) : Prop :=
  ∀ name ∈ attrs.keys, schema.IsKey name ∨ ∃ call ∈ calls, call.name = name

theorem lastEntry_putEntries_eq_none_iff {schema : Schema} {name : Text} :
    OrderedDict.lastEntry name (putEntries schema attrs.items) = none ↔
      (name ∈ attrs.keys → schema.IsKey name) := by
  rw [OrderedDict.lastEntry_eq_none_iff, putEntries, List.map_map, OrderedDict.keys]
  constructor
  · intro hnot hin
    obtain ⟨entry, hentry, rfl⟩ := List.mem_map.mp hin
    by_contra hkey
    refine hnot (List.mem_map.mpr ⟨entry, List.mem_filter.mpr ⟨hentry, ?_⟩, rfl⟩)
    simpa using hkey
  · intro hkey hin
    obtain ⟨entry, hentry, rfl⟩ := List.mem_map.mp hin
    obtain ⟨hentry, hnot⟩ := List.mem_filter.mp hentry
    have hkey : schema.IsKey entry.1 := hkey (List.mem_map_of_mem hentry)
    rw [decide_eq_true hkey] at hnot
    cases hnot

/-- What is pending after the calls is what the calls ask for, or else what was loaded. -/
theorem exists_updates_afterCalls : ∃ updates,
    ((loadedItem table hashKey rangeKey attrs).afterCalls calls).updates = some updates ∧
      ∀ name, updates.get? name = (Call.last calls name).or
        (OrderedDict.lastEntry name (putEntries table.schema attrs.items)) := by
  refine ⟨_, Item.updates_afterCalls loadedItem_spec.2.1 calls, fun name => ?_⟩
  rw [OrderedDict.get?_foldl_set, OrderedDict.get?_ofEntries]
  rfl

theorem pending_iff_namesAll {schema : Schema} :
    (∀ name, (Call.last calls name).or
        (OrderedDict.lastEntry name (putEntries schema attrs.items)) = Call.last calls name) ↔
      NamesAll schema attrs calls := by
  have hname : ∀ name, (Call.last calls name).or
      (OrderedDict.lastEntry name (putEntries schema attrs.items)) = Call.last calls name ↔
        (name ∈ attrs.keys → schema.IsKey name ∨ ∃ call ∈ calls, call.name = name) := by
    intro name
    cases hlast : Call.last calls name with
    | none =>
        have hno : ¬∃ call ∈ calls, call.name = name := by
          rintro ⟨call, hcall, heq⟩
          exact Call.last_eq_none_iff.mp hlast call hcall heq
        rw [Option.none_or, lastEntry_putEntries_eq_none_iff, or_iff_left hno]
    | some update =>
        refine iff_of_true rfl fun _ => .inr ?_
        by_contra hno
        have hnone := (@Call.last_eq_none_iff _ calls name).mpr
          fun call hcall heq => hno ⟨call, hcall, heq⟩
        rw [hlast] at hnone
        cases hnone
  exact forall_congr' hname

/-! ## Saving -/

variable {layer2 : Layer2 Value Payload} {item : Item Value}
  {service : UpdateRequest Payload → Except PyError Answer}
  {expectedValue : Option (OrderedDict Text (Expected Value))} {returnValues : Option Text}

/-- A request is made of the pending updates. -/
theorem get?_dynamizeAttributeUpdates {updates : OrderedDict Text (Update Value)}
    {wire : OrderedDict Text (WireUpdate Payload)}
    (hwire : layer2.dynamizeAttributeUpdates updates = .ok wire) (name : Text) :
    (updates.get? name).map layer2.dynamizeUpdate = (wire.get? name).map Except.ok := by
  obtain ⟨entries, hentries, hwire⟩ := except_bind_eq_ok.mp hwire
  cases hwire
  rw [OrderedDict.get?_ofEntries]
  refine OrderedDict.map_get?_of_forall₂ ?_ name
  refine (forall₂_of_mapM hentries).imp fun entry sent hentry => ?_
  obtain ⟨update, hupdate, hentry⟩ := except_bind_eq_ok.mp hentry
  cases hentry
  exact ⟨rfl, hupdate⟩

/-- Every attribute that a call names is sent as its last call has it, and nothing else. -/
def SendsOnly (layer2 : Layer2 Value Payload) (calls : List (Call Value))
    (request : UpdateRequest Payload) : Prop :=
  ∀ name, (request.attributeUpdates.get? name).map Except.ok =
    (Call.last calls name).map layer2.dynamizeUpdate

theorem sent_eq {request : UpdateRequest Payload}
    (hsent : (layer2.updateItem service item expectedValue returnValues).sent = some request) :
    layer2.updateRequest item expectedValue returnValues = .ok request := by
  rw [Layer2.updateItem] at hsent
  split at hsent
  · cases hsent
  · rename_i hrequest
    split at hsent <;> exact hrequest.trans (congrArg _ (Option.some.inj hsent))

theorem updateRequest_ok {request : UpdateRequest Payload}
    (hrequest : layer2.updateRequest item expectedValue returnValues = .ok request) :
    ∃ updates, item.updates = some updates ∧ layer2.itemKey item = .ok request.key ∧
      layer2.dynamizeAttributeUpdates updates = .ok request.attributeUpdates := by
  obtain ⟨expected, -, hrequest⟩ := except_bind_eq_ok.mp hrequest
  obtain ⟨key, hkey, hrequest⟩ := except_bind_eq_ok.mp hrequest
  split at hrequest
  · cases hrequest
  · rename_i updates hupdates
    obtain ⟨wire, hwire, hrequest⟩ := except_bind_eq_ok.mp hrequest
    cases hrequest
    exact ⟨updates, hupdates, hkey, hwire⟩

/-- Pending updates are cleared exactly if the service answers. -/
theorem updates_updateItem :
    let saved := layer2.updateItem service item expectedValue returnValues
    saved.item.updates = match saved.answer with
      | .ok _ => item.updates.map fun _ => OrderedDict.empty
      | .error _ => item.updates := by
  dsimp only
  rw [Layer2.updateItem]
  split
  · rfl
  · split <;> rfl

/-- A request sends only what the calls ask for exactly if they name every attribute that
was loaded. -/
theorem sendsOnly_iff {request : UpdateRequest Payload}
    (hsent : (layer2.updateItem service ((loadedItem table hashKey rangeKey attrs).afterCalls
      calls) expectedValue returnValues).sent = some request) :
    SendsOnly layer2 calls request ↔ NamesAll table.schema attrs calls := by
  obtain ⟨updates, hupdates, -, hwire⟩ := updateRequest_ok (sent_eq hsent)
  obtain ⟨pending, hpending, hget⟩ := @exists_updates_afterCalls _ table hashKey rangeKey attrs
    calls
  obtain rfl : pending = updates := Option.some.inj (hpending.symm.trans hupdates)
  rw [SendsOnly, ← pending_iff_namesAll]
  refine forall_congr' fun name => ?_
  rw [← get?_dynamizeAttributeUpdates hwire name, hget]
  cases Call.last calls name with
  | none => rw [Option.none_or, Option.map_none, Option.map_eq_none_iff]
  | some update => exact iff_of_true rfl rfl

end Boto.DynamoDB
