import Boto.Python
import Boto.Support.OrderedDict
import Mathlib.Data.Int.Notation

/-!
# Fields and indexes of tables

The schema fields and indexes of `boto/dynamodb2/fields.py`, which write the description of
a table, the attribute definitions that `Table.create` collects from them, and the methods
of `boto/dynamodb2/table.py` that read a description.
-/

namespace Boto.DynamoDB2

/-- `STRING`. -/
def string : Text := "S".toList

/-! ## Descriptions -/

/-- An item of `AttributeDefinitions`. -/
structure RawAttribute where
  attributeName : Text
  attributeType : Text
  deriving DecidableEq

/-- An item of `KeySchema`. -/
structure RawSchemaField where
  attributeName : Text
  keyType : Text
  deriving DecidableEq

/-- `Projection`. -/
structure RawProjection where
  projectionType : Text
  nonKeyAttributes : Option (List Text)
  deriving DecidableEq

/-- `ProvisionedThroughput`. -/
structure RawThroughput where
  readCapacityUnits : ℤ
  writeCapacityUnits : ℤ
  deriving DecidableEq

/-- An item of `LocalSecondaryIndexes` or `GlobalSecondaryIndexes`. -/
structure RawIndex where
  indexName : Text
  keySchema : List RawSchemaField
  projection : RawProjection
  provisionedThroughput : Option RawThroughput
  deriving DecidableEq

/-! ## Fields -/

/-- The classes of schema fields. -/
inductive KeyClass
  | hashKey
  | rangeKey
  deriving DecidableEq

/-- `attr_type`. -/
def KeyClass.attrType : KeyClass → Text
  | .hashKey => "HASH".toList
  | .rangeKey => "RANGE".toList

/-- `BaseSchemaField`, of a class. -/
structure SchemaField where
  keyClass : KeyClass
  name : Text
  dataType : Text := string
  deriving DecidableEq

namespace SchemaField

/-- `definition`. -/
def definition (field : SchemaField) : RawAttribute where
  attributeName := field.name
  attributeType := field.dataType

/-- `schema`. -/
def schema (field : SchemaField) : RawSchemaField where
  attributeName := field.name
  keyType := field.keyClass.attrType

end SchemaField

/-! ## Indexes -/

/-- The classes of indexes, with what `IncludeIndex` includes. -/
inductive IndexClass
  | all
  | keysOnly
  | include (includesFields : List Text)
  deriving DecidableEq

/-- `projection_type`. -/
def IndexClass.projectionType : IndexClass → Text
  | .all => "ALL".toList
  | .keysOnly => "KEYS_ONLY".toList
  | .include _ => "INCLUDE".toList

/-- `NonKeyAttributes`, which only an `IncludeIndex` writes. -/
def IndexClass.nonKeyAttributes : IndexClass → Option (List Text)
  | .all => none
  | .keysOnly => none
  | .include includesFields => some includesFields

/-- `BaseIndexField`, of a class. -/
structure IndexField where
  indexClass : IndexClass
  name : Text
  parts : List SchemaField
  deriving DecidableEq

namespace IndexField

/-- `definition`. -/
def definition (index : IndexField) : List RawAttribute :=
  index.parts.map SchemaField.definition

/-- `schema`. -/
def schema (index : IndexField) : RawIndex where
  indexName := index.name
  keySchema := index.parts.map SchemaField.schema
  projection :=
    { projectionType := index.indexClass.projectionType
      nonKeyAttributes := index.indexClass.nonKeyAttributes }
  provisionedThroughput := none

end IndexField

/-- `throughput`. -/
structure Throughput where
  read : ℤ
  write : ℤ
  deriving DecidableEq

/-- The throughput of an index that is made without one. -/
def defaultThroughput : Throughput where
  read := 5
  write := 5

/-- `GlobalBaseIndexField`, of a class. -/
structure GlobalIndexField extends IndexField where
  throughput : Throughput := defaultThroughput
  deriving DecidableEq

namespace GlobalIndexField

/-- `schema`. -/
def schema (index : GlobalIndexField) : RawIndex :=
  { index.toIndexField.schema with
    provisionedThroughput := some
      { readCapacityUnits := index.throughput.read
        writeCapacityUnits := index.throughput.write } }

end GlobalIndexField

namespace Table

/-! ## Writing -/

/-- The definitions of the parts of an index that have not been seen, after others. -/
def addParts (attrDefs : List RawAttribute) (parts : List SchemaField) : List RawAttribute :=
  parts.foldl (fun attrDefs field =>
    if field.name ∈ attrDefs.map RawAttribute.attributeName then attrDefs
    else attrDefs ++ [field.definition]) attrDefs

/-- `attr_defs` of `create`. -/
def attributeDefinitions (schema : List SchemaField) (indexes : List IndexField)
    (globalIndexes : List GlobalIndexField) : List RawAttribute :=
  (indexes ++ globalIndexes.map (·.toIndexField)).foldl
    (fun attrDefs index => addParts attrDefs index.parts) (schema.map SchemaField.definition)

/-! ## Reading -/

/-- What the introspection raises. -/
inductive IntrospectionError
  | unknownSchemaField (message : Text)
  | unknownIndexField (message : Text)
  | keyError
  deriving DecidableEq

/-- The message for something unknown. -/
def wasSeen (type : Text) : Text :=
  type ++ (" was seen, but is unknown. Please report this at " ++
    "https://github.com/boto/boto/issues.").toList

/-- `sane_attributes`. -/
def saneAttributes (rawAttributes : Option (List RawAttribute)) : OrderedDict Text Text :=
  (rawAttributes.getD []).foldl
    (fun attributes field => attributes.set field.attributeName field.attributeType)
    OrderedDict.empty

/-- The field that is read from an item of a schema. -/
def introspectField (attributes : OrderedDict Text Text) (field : RawSchemaField) :
    Except IntrospectionError SchemaField :=
  let dataType := (attributes.get? field.attributeName).getD string
  if field.keyType = "HASH".toList then .ok ⟨.hashKey, field.attributeName, dataType⟩
  else if field.keyType = "RANGE".toList then .ok ⟨.rangeKey, field.attributeName, dataType⟩
  else .error (.unknownSchemaField (wasSeen field.keyType))

/-- `_introspect_schema`. -/
def introspectSchema (rawSchema : List RawSchemaField)
    (rawAttributes : Option (List RawAttribute)) :
    Except IntrospectionError (List SchemaField) :=
  rawSchema.mapM (introspectField (saneAttributes rawAttributes))

/-- The class of an index that is read. -/
def introspectClass (projection : RawProjection) : Except IntrospectionError IndexClass :=
  if projection.projectionType = "ALL".toList then .ok .all
  else if projection.projectionType = "KEYS_ONLY".toList then .ok .keysOnly
  else if projection.projectionType = "INCLUDE".toList then
    match projection.nonKeyAttributes with
    | some includes => .ok (.include includes)
    | none => .error .keyError
  else .error (.unknownIndexField (wasSeen projection.projectionType))

/-- The index that is read from its description. -/
def introspectIndex (field : RawIndex) : Except IntrospectionError IndexField := do
  let indexKlass ← introspectClass field.projection
  let parts ← introspectSchema field.keySchema none
  return ⟨indexKlass, field.indexName, parts⟩

/-- `_introspect_indexes`. -/
def introspectIndexes (rawIndexes : List RawIndex) :
    Except IntrospectionError (List IndexField) :=
  rawIndexes.mapM introspectIndex

/-- `_introspect_global_indexes`, whose indexes are made without a throughput. -/
def introspectGlobalIndexes (rawGlobalIndexes : List RawIndex) :
    Except IntrospectionError (List GlobalIndexField) :=
  rawGlobalIndexes.mapM fun field =>
    (introspectIndex field).map fun index => { index with }

end Table

end Boto.DynamoDB2
