import Boto.DynamoDB2.Values
import Mathlib.Data.Finset.Card
import Boto.Support.ListResults
import Boto.Support.OrderedDict

/-!
# Filters

`_build_filters` of `boto/dynamodb2/table.py`, which turns keyword arguments with names such
as `age__gt` into the conditions of a query, a scan or a conditional write.  Which order
the elements of a set are iterated in is given from outside.
-/

namespace Boto.DynamoDB2

/-- An order for the elements of every set. -/
structure SetOrder where
  order : Finset Scalar → List Scalar
  order_eq : ∀ elements, (order elements : Multiset Scalar) = elements.val

/-- The items of a `list`. -/
def Items.toList : Items → List Value
  | .nil => []
  | .cons head tail => head :: tail.toList

/-- The keys of a `dict`. -/
def Fields.keys : Fields → List Text
  | .nil => []
  | .cons key _ tail => key :: tail.keys

/-- `len(value)`, where the value has a length. -/
def Value.len : Value → Option ℕ
  | .scalar (.str value) => some value.length
  | .scalar (.bytes value) => some value.length
  | .scalar _ => none
  | .set elements => some elements.card
  | .list items => some items.toList.length
  | .dict fields => some fields.keys.length

/-- The values that `for val in value` goes through, where it does. -/
def Value.iterate (version : PyVersion) (setOrder : SetOrder) : Value → Option (List Value)
  | .scalar (.str value) => some (value.map fun c => .scalar (.str [c]))
  | .scalar (.bytes value) => some (value.map fun byte =>
      match version with
      | .py2 => .scalar (.bytes [byte])
      | .py3 => .scalar (.number byte.toNat true))
  | .scalar _ => none
  | .set elements => some ((setOrder.order elements).map .scalar)
  | .list items => some items.toList
  | .dict fields => some (fields.keys.map fun key => .scalar (.str key))

/-- The elements of `set(items)`, where all items can be hashed: of equal items the first
stays. -/
def distinctScalars : List Atom → List Value → Option (List Scalar)
  | _, [] => some []
  | seen, .scalar value :: values =>
      if value.atom ∈ seen then distinctScalars seen values
      else (distinctScalars (value.atom :: seen) values).map (value :: ·)
  | _, _ :: _ => none

/-! ## Operators -/

/-- A table of operators. -/
abbrev Operators := List (Text × Text)

/-- `QUERY_OPERATORS`. -/
def queryOperators : Operators :=
  [("eq", "EQ"), ("lte", "LE"), ("lt", "LT"), ("gte", "GE"), ("gt", "GT"),
    ("beginswith", "BEGINS_WITH"), ("between", "BETWEEN")].map
    fun item => (item.1.toList, item.2.toList)

/-- `FILTER_OPERATORS`. -/
def filterOperators : Operators :=
  [("eq", "EQ"), ("ne", "NE"), ("lte", "LE"), ("lt", "LT"), ("gte", "GE"), ("gt", "GT"),
    ("nnull", "NOT_NULL"), ("null", "NULL"), ("contains", "CONTAINS"),
    ("ncontains", "NOT_CONTAINS"), ("beginswith", "BEGINS_WITH"), ("in", "IN"),
    ("between", "BETWEEN")].map fun item => (item.1.toList, item.2.toList)

/-- `text.split('__')`. -/
def splitBits : Text → List Text
  | [] => [[]]
  | [c] => [[c]]
  | c :: d :: rest =>
      if c = '_' ∧ d = '_' then [] :: splitBits rest
      else (splitBits (d :: rest)).modifyHead (c :: ·)

/-- `'__'.join(bits)`. -/
def joinBits (bits : List Text) : Text :=
  ['_', '_'].intercalate bits

/-- `field_bits[-1]`. -/
def operator (fieldAndOp : Text) : Text :=
  (splitBits fieldAndOp).getLastD []

/-- `fieldname`. -/
def fieldname (fieldAndOp : Text) : Text :=
  joinBits (splitBits fieldAndOp).dropLast

/-! ## Conditions -/

/-- `lookup`. -/
structure Lookup where
  attributeValueList : Option (List Wire)
  comparisonOperator : Text
  deriving DecidableEq

/-- What `_build_filters` raises. -/
inductive FilterError
  | unknownFilterType (message : Text)
  | typeError
  | encode (error : EncodeError)
  deriving DecidableEq

/-- How a table encodes values. -/
structure FilterEncoding where
  version : PyVersion
  setOrder : SetOrder
  useBoolean : Bool

namespace FilterEncoding

variable (encoding : FilterEncoding)

/-- `self._dynamizer.encode(value)`. -/
def encode (value : Value) : Except FilterError Wire :=
  (value.encode encoding.useBoolean).mapError .encode

/-- The values whose encodings a condition gets. -/
def conditionValues (op : Text) (value : Value) : Except FilterError (List Value) :=
  if op = "between".toList then
    match value.len with
    | none => .error .typeError
    | some length =>
        match value with
        | .list items => .ok (if length = 2 then items.toList else [])
        | _ => .ok []
  else if op = "in".toList then
    match value.iterate encoding.version encoding.setOrder with
    | none => .error .typeError
    | some values => .ok values
  else
    match value with
    | .list items =>
        match distinctScalars [] items.toList with
        | none => .error .typeError
        | some elements => .ok [.set elements.toFinset]
    | value => .ok [value]

/-- The condition for an operator with its name in requests. -/
def buildLookup (op code : Text) (value : Value) : Except FilterError Lookup :=
  if op = "null".toList then
    .ok
      { attributeValueList := none
        comparisonOperator :=
          match value with
          | .scalar (.bool false) => "NOT_NULL".toList
          | _ => "NULL".toList }
  else do
    let values ← encoding.conditionValues op value
    let encoded ← values.mapM encoding.encode
    return { attributeValueList := some encoded, comparisonOperator := code }

/-- What an argument adds to the filters. -/
def addFilter (operators : Operators) (filters : OrderedDict Text Lookup)
    (entry : Text × Value) : Except FilterError (OrderedDict Text Lookup) :=
  match operators.lookup (operator entry.1) with
  | none => .error (.unknownFilterType
      ("Operator '".toList ++ operator entry.1 ++ "' from '".toList ++ entry.1 ++
        "' is not recognized.".toList))
  | some code => do
      let lookup ← encoding.buildLookup (operator entry.1) code entry.2
      return filters.set (fieldname entry.1) lookup

/-- `_build_filters`. -/
def buildFilters (operators : Operators) (filterKwargs : OrderedDict Text Value) :
    Except FilterError (OrderedDict Text Lookup) :=
  filterKwargs.items.foldlM (encoding.addFilter operators) OrderedDict.empty

end FilterEncoding

end Boto.DynamoDB2
