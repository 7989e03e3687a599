import Boto.Numerals

/-!
# Integers in SimpleDB

SimpleDB stores text, so `SDBConverter` writes an integer as a numeral of a fixed width
after adding an offset.  This is the part of `boto/sdb/db/manager/sdbmanager.py` and
`boto/sdb/db/property.py` that integers go through: the properties that admit them, and
the type map that picks their encoding.  Only values that are integers are modelled.
-/

namespace Boto.SDB

/-! ## Types and properties -/

/-- The types of integers.  There is no `long` in Python 3. -/
inductive PyType
  | int
  | long
  deriving DecidableEq

namespace PyType

/-- `'%s' % type`. -/
def repr (version : PyVersion) (type : PyType) : String :=
  match version, type with
  | .py2, .int => "<type 'int'>"
  | .py2, .long => "<type 'long'>"
  | .py3, _ => "<class 'int'>"

/-- `long_type` of `boto/compat.py`. -/
def longType : PyVersion → PyType
  | .py2 => .long
  | .py3 => .int

/-- The type of `int(value)`, which is `long` where a machine word is too small. -/
def ofInt (version : PyVersion) (maxint : ℕ) (value : ℤ) : PyType :=
  match version with
  | .py2 => if -(maxint : ℤ) - 1 ≤ value ∧ value ≤ maxint then .int else .long
  | .py3 => .int

end PyType

/-- `Property`, with the class and the name that its messages give. -/
structure Property where
  modelClass : String
  name : String
  default : Option ℤ
  validator : Option (ℤ → Except PyError Unit)
  choices : List ℤ

namespace Property

variable (version : PyVersion) (self : Property)

/-- `default_validator`, for a value of a type. -/
def defaultValidator (dataType type : PyType) (value : ℤ) : Except PyError Unit :=
  if self.default = some value then .ok ()
  else if type ≠ dataType then
    .error (.typeError s!"Validation Error, {self.modelClass}.{self.name} expecting {
      dataType.repr version}, got {type.repr version}")
  else .ok ()

/-- `validate`, for a value of a type.  An integer is not `None`, so that the property
is required has no effect. -/
def validate (dataType type : PyType) (value : ℤ) : Except PyError ℤ :=
  if self.choices ≠ [] ∧ value ≠ 0 ∧ value ∉ self.choices then
    .error (.valueError s!"{value} not a valid choice for {self.modelClass}.{self.name}")
  else do
    match self.validator with
    | some validator => validator value
    | none => self.defaultValidator version dataType type value
    return value

end Property

/-- `IntegerProperty`, with the bounds of its constructor. -/
structure IntegerProperty extends Property where
  max : ℤ := 2147483647
  min : ℤ := -2147483648

namespace IntegerProperty

/-- `data_type`. -/
def dataType : PyType := .int

/-- `validate`. -/
def validate (version : PyVersion) (maxint : ℕ) (self : IntegerProperty) (value : ℤ) :
    Except PyError ℤ := do
  let value ← self.toProperty.validate version dataType
    (PyType.ofInt version maxint value) value
  if self.max < value then .error (.valueError s!"Maximum value is {self.max}")
  else if value < self.min then .error (.valueError s!"Minimum value is {self.min}")
  else return value

end IntegerProperty

/-- `LongProperty`. -/
structure LongProperty extends Property

namespace LongProperty

/-- `data_type`. -/
def dataType (version : PyVersion) : PyType := .longType version

/-- `validate`. -/
def validate (version : PyVersion) (self : LongProperty) (value : ℤ) :
    Except PyError ℤ := do
  let value ← self.toProperty.validate version (dataType version)
    (.longType version) value
  let min : ℤ := -9223372036854775808
  let max : ℤ := 9223372036854775807
  if max < value then .error (.valueError s!"Maximum value is {max}")
  else if value < min then .error (.valueError s!"Minimum value is {min}")
  else return value

end LongProperty

/-- A property for integers. -/
inductive NumberProperty
  | integer (property : IntegerProperty)
  | long (property : LongProperty)

namespace NumberProperty

/-- `data_type`. -/
def dataType (version : PyVersion) : NumberProperty → PyType
  | integer _ => IntegerProperty.dataType
  | long _ => LongProperty.dataType version

/-- `validate`. -/
def validate (version : PyVersion) (maxint : ℕ) : NumberProperty → ℤ → Except PyError ℤ
  | integer property => property.validate version maxint
  | long property => property.validate version

end NumberProperty

/-! ## The converter -/

/-- `'%0*d' % (width, value)`: a sign counts for the width. -/
def zeroPadded (width : ℕ) (value : ℤ) : Text :=
  if value < 0 then '-' :: (decimal value.natAbs).leftpad (width - 1) '0'
  else (decimal value.natAbs).leftpad width '0'

/-- `encode_int`. -/
def encodeInt (value : ℤ) : Text :=
  zeroPadded 10 (value + 2147483648)

/-- `decode_int`, which takes what is no numeral for zero. -/
def decodeInt (value : Text) : ℤ :=
  match parseInt value with
  | .ok value => value - 2147483648
  | .error _ => 0 - 2147483648

/-- `encode_long`. -/
def encodeLong (value : ℤ) : Text :=
  zeroPadded 20 (value + 9223372036854775808)

/-- `decode_long`. -/
def decodeLong (value : Text) : Except PyError ℤ := do
  let value ← parseInt value
  return value - 9223372036854775808

/-- The methods for a type. -/
structure Codec where
  encode : ℤ → Text
  decode : Text → Except PyError ℤ

/-- `type_map`, as far as integers are concerned. -/
def typeMap : PyVersion → PyType → Option Codec
  | _, .int => some { encode := encodeInt, decode := fun value => .ok (decodeInt value) }
  | .py2, .long => some { encode := encodeLong, decode := decodeLong }
  | .py3, .long => none

/-- What is stored: text, or a value as it is when its type is not in the map. -/
inductive Stored
  | text (value : Text)
  | number (value : ℤ)

/-- `encode`. -/
def encode (version : PyVersion) (itemType : PyType) (value : ℤ) : Stored :=
  match typeMap version itemType with
  | some codec => .text (codec.encode value)
  | none => .number value

/-- `decode` of some text: it is returned as it is when its type is not in the map. -/
def decode (version : PyVersion) (itemType : PyType) (value : Text) :
    Except PyError (ℤ ⊕ Text) :=
  match typeMap version itemType with
  | some codec => .inl <$> codec.decode value
  | none => .ok (.inr value)

/-- `encode_prop`. -/
def encodeProp (version : PyVersion) (prop : NumberProperty) (value : ℤ) : Stored :=
  encode version (prop.dataType version) value

/-- `decode_prop`. -/
def decodeProp (version : PyVersion) (prop : NumberProperty) (value : Text) :
    Except PyError (ℤ ⊕ Text) :=
  decode version (prop.dataType version) value

end Boto.SDB
