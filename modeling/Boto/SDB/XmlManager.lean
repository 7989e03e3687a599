import Boto.TextMethods
import Boto.WrittenNumbers
import Boto.Support.ListResults
import Mathlib.Logic.Function.Basic

/-!
# Model objects as XML

`XMLManager` and `XMLConverter` of `boto/sdb/db/manager/xmlmanager.py`, with `Query.to_xml` of
`boto/sdb/db/query.py` and the parts of `boto/sdb/db/property.py` that decide which values a
property can be set to.  The interpreter is Python 2, the only one whose `createTextNode` takes
the byte string that `marshal_object` gives it.

A document is the list of the children of its root `objects`.  A text node is parsed to
itself, and an empty one is not there afterwards; in an attribute the parser replaces line ends
and tabs by spaces.  Properties have no validator and no choices of their own and are not
required.  Of a floating point number only its text is used.
-/

namespace Boto.SDB.XmlManager

open Auth (strInt)

/-! ## Documents -/

/-- A node of a document. -/
inductive Node
  | text (data : Text)
  | element (tagName : String) (attributes : List (String × Text)) (childNodes : List Node)

mutual

/-- The elements of a name among a node and what is in it, in document order. -/
def Node.withTag (name : String) : Node → List Node
  | .text _ => []
  | .element tagName attributes childNodes =>
      (if tagName = name then [.element tagName attributes childNodes] else []) ++
        Node.allWithTag name childNodes

/-- The elements of a name among some nodes and what is in them, in document order. -/
def Node.allWithTag (name : String) : List Node → List Node
  | [] => []
  | node :: nodes => node.withTag name ++ Node.allWithTag name nodes

end

/-- `node.childNodes`. -/
def Node.childNodes : Node → List Node
  | .text _ => []
  | .element _ _ childNodes => childNodes

/-- `node.getElementsByTagName(name)`. -/
def Node.getElementsByTagName (name : String) (node : Node) : List Node :=
  Node.allWithTag name node.childNodes

/-- `node.getAttribute(name)`, which is empty where there is no such attribute. -/
def Node.getAttribute (name : String) : Node → Text
  | .text _ => []
  | .element _ attributes _ => (attributes.lookup name).getD []

/-- The children of the root of a document. -/
abbrev Document := List Node

/-- `doc.getElementsByTagName(name)`. -/
def Document.getElementsByTagName (name : String) (doc : Document) : List Node :=
  Node.withTag name (.element "objects" [] doc)

/-- The characters a parser replaces in an attribute. -/
def isLineSpace (c : Char) : Bool :=
  c = '\t' || c = '\n' || c = '\r'

/-- An attribute after it was written and parsed. -/
def attributeRead : Text → Text
  | '\r' :: '\n' :: text => ' ' :: attributeRead text
  | c :: text => (if isLineSpace c then ' ' else c) :: attributeRead text
  | [] => []

mutual

/-- A node after it was written and parsed. -/
def Node.parsed : Node → List Node
  | .text data => if data = [] then [] else [.text data]
  | .element tagName attributes childNodes =>
      [.element tagName (attributes.map fun pair => (pair.1, attributeRead pair.2))
        (Node.allParsed childNodes)]

/-- Nodes after they were written and parsed. -/
def Node.allParsed : List Node → List Node
  | [] => []
  | node :: nodes => node.parsed ++ Node.allParsed nodes

end

/-- A text that is the same in an attribute after parsing. -/
def IsPlain (text : Text) : Prop :=
  ∀ c ∈ text, isLineSpace c = false

/-! ## Model classes and objects -/

/-- An object of another class that a property refers to. -/
structure Reference where
  className : Text
  id : Option Text
  deriving DecidableEq

/-- The types of text. -/
inductive TextType
  | str
  | unicode
  | basestring
  deriving DecidableEq

/-- The `item_type` of a list property. -/
inductive ItemType
  | text (type : TextType)
  | integer
  | boolean
  deriving DecidableEq

/-- The items of a list property. -/
abbrev ItemType.Carrier : ItemType → Type
  | .text _ => Text
  | .integer => ℤ
  | .boolean => Bool

/-- The kinds of properties, with the values that decide what they accept and their defaults.
A reference asks `check_instance` and has no default. -/
inductive PropertyType (φ : Type)
  | text (maxLength : Option ℕ) (default : Option Text)
  | integer (min max default : ℤ)
  | float (default : φ)
  | boolean (default : Option Bool)
  | list (itemType : ItemType) (default : List itemType.Carrier)
  | reference (checkInstance : Reference → Bool)

/-- The values of a property, where `None` may be one. -/
abbrev PropertyType.Carrier {φ : Type} : PropertyType φ → Type
  | .text _ _ => Option Text
  | .integer _ _ _ => ℤ
  | .float _ => φ
  | .boolean _ => Option Bool
  | .list itemType _ => List itemType.Carrier
  | .reference _ => Option Reference

/-- A property of a model class. -/
structure Property (φ : Type) where
  name : Text
  typeName : Text
  type : PropertyType φ

/-- A model class.  The names are identifiers. -/
structure ModelClass (φ : Type) where
  name : Text
  properties : List (Property φ)
  distinct : (properties.map Property.name).Nodup
  plain : IsPlain name ∧ ∀ p ∈ properties, IsPlain p.name

/-- `cls.find_property(prop_name)`. -/
def ModelClass.findProperty {φ : Type} (cls : ModelClass φ) (propName : Text) :
    Option (Property φ) :=
  cls.properties.find? fun p => p.name = propName

/-- An item of a list that was read. -/
inductive Item
  | none
  | text (value : Text)
  | integer (value : ℤ)
  | boolean (value : Bool)
  deriving DecidableEq

/-- A value of a property, of any type. -/
inductive Value (φ : Type)
  | none
  | text (value : Text)
  | integer (value : ℤ)
  | float (value : φ)
  | boolean (value : Bool)
  | list (items : List Item)
  | reference (object : Reference)
  deriving DecidableEq

/-- An item, without its static type. -/
def ItemType.toItem : (itemType : ItemType) → itemType.Carrier → Item
  | .text _, value => .text value
  | .integer, value => .integer value
  | .boolean, value => .boolean value

namespace PropertyType

variable {φ : Type}

/-- A value, without its static type. -/
def toValue : (type : PropertyType φ) → type.Carrier → Value φ
  | .text _ _, none => .none
  | .text _ _, some value => .text value
  | .integer _ _ _, value => .integer value
  | .float _, value => .float value
  | .boolean _, none => .none
  | .boolean _, some value => .boolean value
  | .list itemType _, items => .list (items.map itemType.toItem)
  | .reference _, none => .none
  | .reference _, some object => .reference object

/-- `prop.default_value()`. -/
def defaultValue : PropertyType φ → Value φ
  | .text maxLength default => toValue (.text maxLength default) default
  | .integer _ _ default => .integer default
  | .float default => .float default
  | .boolean default => toValue (.boolean default) default
  | .list itemType default => .list (default.map itemType.toItem)
  | .reference _ => .none

/-- The values that an object with this id can hold. -/
def IsValid (id : Option Text) : (type : PropertyType φ) → type.Carrier → Prop
  | .text maxLength _, value => ∀ text ∈ value, ∀ length ∈ maxLength, text.length ≤ length
  | .integer min max _, value => min ≤ value ∧ value ≤ max
  | .float _, _ => True
  | .boolean default, value => value = none → default = none
  | .list _ _, _ => True
  | .reference checkInstance, value =>
      ∀ object ∈ value, id ≠ object.id ∧ checkInstance object = true

end PropertyType

/-- An object of a model class. -/
structure ModelObject {φ : Type} (cls : ModelClass φ) where
  id : Option Text
  value : (p : Property φ) → p.type.Carrier
  valid : ∀ p ∈ cls.properties, p.type.IsValid id (value p)

/-- An object that was read: its id and the value of each property. -/
structure Instance (φ : Type) where
  id : Option Text
  values : Text → Value φ

/-- What the code uses from outside: floating point numbers as text, the classes that are
loaded and the objects the service returns, where no object stands for an exception too. -/
structure World {φ : Type} (cls : ModelClass φ) where
  floatText : φ → Text
  isFloatText : Text → Bool
  floatText_ascii : ∀ x, ∀ c ∈ floatText x, c.toNat < 128
  isFloatText_floatText : ∀ x, isFloatText (floatText x) = true
  findClass : Text → Option (ModelClass φ)
  getByIds : ModelClass φ → Text → Option Reference
  findClass_name : findClass cls.name = some cls

/-! ## Writing -/

section Writing

variable {φ : Type} {cls : ModelClass φ} (world : World cls)

/-- `text.encode('ascii', 'ignore')`. -/
def encodeAscii (text : Text) : Text :=
  text.filter fun c => c.toNat < 128

/-- `encode_bool`. -/
def encodeBool (value : Bool) : Text :=
  if value = true then "true".toList else "false".toList

/-- `encode_reference` of an object. -/
def encodeReference (object : Reference) : Node :=
  .element "object" [("id", object.id.getD []), ("class", object.className)] []

/-- `encode` of an item of a list. -/
def encodeItem : (itemType : ItemType) → itemType.Carrier → Text
  | .text _, value => value
  | .integer, value => strInt value
  | .boolean, value => encodeBool value

/-- What `encode_prop` returns, where a number that it leaves alone is the text that
`six.text_type` makes of it. -/
inductive Encoded
  | text (value : Text)
  | node (value : Node)
  | list (items : List Text)

/-- `encode_prop`, on a value that is not `None`. -/
def encodeProp : (type : PropertyType φ) → type.Carrier → Option Encoded
  | .text _ _, value => value.map .text
  | .integer _ _ _, value => some (.text (strInt value))
  | .float _, value => some (.text (world.floatText value))
  | .boolean _, value => value.map fun value => .text (encodeBool value)
  | .list itemType _, items => some (.list (items.map (encodeItem itemType)))
  | .reference _, value => value.map fun object => .node (encodeReference object)

/-- `save_list`: the node it appends. -/
def saveList (items : List Text) : Node :=
  .element "items" [] (items.map fun item => .element "item" [] [.text item])

/-- The children of the node of a property. -/
def encodedNodes : Option Encoded → List Node
  | none => []
  | some (.list items) => [saveList items]
  | some (.node value) => [value]
  | some (.text value) => [.text (encodeAscii value)]

/-- The node of a property. -/
def propertyNode (obj : ModelObject cls) (p : Property φ) : Node :=
  .element "property" [("name", p.name), ("type", p.typeName)]
    (encodedNodes (encodeProp world p.type (obj.value p)))

/-- The attribute of an id, which is left out where the id is empty. -/
def idAttribute : Option Text → List (String × Text)
  | none => []
  | some id => if id = [] then [] else [("id", id)]

/-- `marshal_object`. -/
def marshalObject (doc : Document) (obj : ModelObject cls) : Document :=
  doc ++ [.element "object" (idAttribute obj.id ++ [("class", cls.name)])
    (cls.properties.map (propertyNode world obj))]

/-- `Query.to_xml`. -/
def queryToXml (objs : List (ModelObject cls)) : Document :=
  objs.foldl (marshalObject world) []

end Writing

/-! ## Reading -/

section Reading

variable {φ : Type} {cls : ModelClass φ} (world : World cls)

/-- The exceptions of the reader. -/
inductive Raised
  | valueError
  | typeError
  | indexError
  | attributeError
  deriving DecidableEq

/-- `get_text_value`. -/
def getTextValue (node : Node) : Text :=
  node.childNodes.flatMap fun
    | .text data => data
    | .element _ _ _ => []

/-- `decode_int`. -/
def decodeInt (node : Node) : Except Raised (Option ℤ) :=
  if getTextValue node = [] then .ok none
  else match parseInt (getTextValue node) with
    | .ok value => .ok (some value)
    | .error _ => .error .valueError

/-- `decode_bool`. -/
def decodeBool (node : Node) : Bool :=
  lower (getTextValue node) = "true".toList

/-- `cls.get_by_ids(id)` of the class and the id that a node names. -/
def fetch (className id : Text) : Option Reference :=
  (world.findClass className).bind fun cls => world.getByIds cls id

/-- `decode_reference`.  A property without an element in front raises what is caught. -/
def decodeReference (node : Node) : Value φ :=
  match node.childNodes with
  | .element tagName attributes childNodes :: _ =>
      let value : Node := .element tagName attributes childNodes
      match fetch world (value.getAttribute "class") (value.getAttribute "id") with
      | some object => .reference object
      | none => .none
  | _ => .none

/-- `decode` of an item of a list. -/
def decodeItem (itemType : ItemType) (node : Node) : Except Raised Item :=
  match itemType with
  | .text _ => .ok (.text (getTextValue node))
  | .integer => do
      match ← decodeInt node with
      | some value => return .integer value
      | none => return .none
  | .boolean => .ok (.boolean (decodeBool node))

/-- `decode_prop`, after which `make_value_from_datastore` changes nothing. -/
def decodeValue (type : PropertyType φ) (node : Node) : Except Raised (Value φ) :=
  match type with
  | .text _ _ | .float _ => .ok (.text (getTextValue node))
  | .integer _ _ _ => do
      match ← decodeInt node with
      | some value => return .integer value
      | none => return .none
  | .boolean _ => .ok (.boolean (decodeBool node))
  | .list itemType _ => .list <$> (node.getElementsByTagName "item").mapM (decodeItem itemType)
  | .reference _ => .ok (decodeReference world node)

/-- `get_list`. -/
def getList (itemType : ItemType) (node : Node) : Except Raised (List Item) :=
  match node.getElementsByTagName "items" with
  | [] => .ok []
  | itemsNode :: _ => (itemsNode.getElementsByTagName "item").mapM (decodeItem itemType)

/-- Whether `ListProperty.validate` accepts an item that was read.  As `str` is not one of
`six.string_types`, an item has to be of the very type; a text that was read is a `unicode`
unless there was no text node. -/
def isItem : ItemType → Item → Bool
  | .text .str, .text value => value = []
  | .text .unicode, .text value => value ≠ []
  | .text .basestring, .text _ => true
  | .integer, .integer _ => true
  | .boolean, .boolean _ => true
  | _, _ => false

/-- `IntegerProperty.validate`. -/
def storeInteger (min max value : ℤ) : Except Raised (Value φ) :=
  if max < value then .error .valueError
  else if value < min then .error .valueError
  else .ok (.integer value)

/-- `prop.__set__` on an object with this id: the value that it stores.  No reader gives a
property a value of a type that is missing here. -/
def store (id : Option Text) (type : PropertyType φ) (value : Value φ) :
    Except Raised (Value φ) :=
  match type, value with
  | .text _ _, .none => .ok .none
  | .text maxLength _, .text text =>
      if maxLength.all (text.length ≤ ·) then .ok (.text text) else .error .valueError
  | .integer min max _, .none => storeInteger min max 0
  | .integer min max _, .integer value => storeInteger min max value
  | .float _, .text text =>
      if world.isFloatText text then .ok (.text text) else .error .valueError
  | .float _, .float value => .ok (.float value)
  | .boolean default, .none => if default = none then .ok .none else .error .typeError
  | .boolean _, .boolean value => .ok (.boolean value)
  | .list _ _, .none => .ok (.list [])
  | .list itemType _, .list items =>
      if items.all (isItem itemType) then .ok (.list items) else .error .valueError
  | .reference _, .none => .ok .none
  | .reference checkInstance, .reference object =>
      if id = object.id then .error .valueError
      else if checkInstance object then .ok (.reference object)
      else .error .valueError
  | _, _ => .error .typeError

/-- What `_object_lister` does with the node of a property. -/
def listedValue (id : Option Text) (p : Property φ) (node : Node) (_old : Value φ) :
    Except Raised (Value φ) := do
  let value ← match p.type with
    | .list itemType _ => Value.list <$> getList itemType node
    | type => decodeValue world type node
  store world id p.type value

/-- What `get_object_from_doc` does with the node of a property: `None` is not set, nor is
what the property refuses. -/
def loadedValue (id : Option Text) (p : Property φ) (node : Node) (old : Value φ) :
    Except Raised (Value φ) := do
  match ← decodeValue world p.type node with
  | .none => return old
  | value =>
      match store world id p.type value with
      | .ok stored => return stored
      | .error _ => return old

/-- The loop over the nodes of properties: what one node does to its property, and what
happens on a name that the class does not have. -/
def fill (cls : ModelClass φ) (missing : Except Raised Unit)
    (outcome : Property φ → Node → Value φ → Except Raised (Value φ)) :
    List Node → (Text → Value φ) → Except Raised (Text → Value φ)
  | [], values => .ok values
  | node :: nodes, values =>
      match cls.findProperty (node.getAttribute "name") with
      | none => do
          missing
          fill cls missing outcome nodes values
      | some p => do
          let value ← outcome p node (values p.name)
          fill cls missing outcome nodes (Function.update values p.name value)

/-- The values of a new object. -/
def defaults (cls : ModelClass φ) (name : Text) : Value φ :=
  match cls.findProperty name with
  | some p => p.type.defaultValue
  | none => .none

/-- `cls`, or the class that a node names; `None` cannot be called. -/
def classOf (given : Option (ModelClass φ)) (objNode : Node) : Except Raised (ModelClass φ) :=
  match given with
  | some given => .ok given
  | none =>
      match world.findClass (objNode.getAttribute "class") with
      | some found => .ok found
      | none => .error .typeError

/-- One round of `_object_lister`. -/
def listedObject (found : ModelClass φ) (objNode : Node) : Except Raised (Instance φ) := do
  let id := some (objNode.getAttribute "id")
  let values ← fill found (.ok ()) (listedValue world id)
    (objNode.getElementsByTagName "property") (defaults found)
  return ⟨id, values⟩

/-- The rounds of `_object_lister`, which keeps the class of the first one. -/
def listObjects : Option (ModelClass φ) → List Node → Except Raised (List (Instance φ))
  | _, [] => .ok []
  | given, objNode :: rest => do
      let found ← classOf world given objNode
      let obj ← listedObject world found objNode
      let objs ← listObjects (some found) rest
      return obj :: objs

/-- `_object_lister`, run to its end. -/
def objectLister (given : Option (ModelClass φ)) (doc : Document) :
    Except Raised (List (Instance φ)) :=
  listObjects world given (Document.getElementsByTagName "object" doc)

/-- `get_object_from_doc`. -/
def getObjectFromDoc (given : Option (ModelClass φ)) (id : Option Text) (doc : Document) :
    Except Raised (Instance φ) :=
  match Document.getElementsByTagName "object" doc with
  | [] => .error .indexError
  | objNode :: _ => do
      let found ← classOf world given objNode
      let id := some (if id.getD [] = [] then objNode.getAttribute "id" else id.getD [])
      let values ← fill found (.error .attributeError) (loadedValue world id)
        (objNode.getElementsByTagName "property") (defaults found)
      return ⟨id, values⟩

/-- `unmarshal_object` on a document that was written. -/
def unmarshalObject (given : Option (ModelClass φ)) (id : Option Text) (written : Document) :
    Except Raised (Instance φ) :=
  getObjectFromDoc world given id (Node.allParsed written)

end Reading

/-! ## What survives -/

section Survival

variable {φ : Type} {cls : ModelClass φ} (world : World cls)

/-- An object was read with its id and its values. -/
def SameObject (obj : ModelObject cls) (read : Instance φ) : Prop :=
  read.id = obj.id ∧
    ∀ p ∈ cls.properties, read.values p.name = p.type.toValue (obj.value p)

/-- The class a caller passes. -/
def given (cls : ModelClass φ) (named : Bool) : Option (ModelClass φ) :=
  if named then some cls else none

/-- Objects written into one document are what `_object_lister` reads from it. -/
def SurvivesList (named : Bool) (objs : List (ModelObject cls)) : Prop :=
  ∃ read, objectLister world (given cls named) (Node.allParsed (queryToXml world objs)) =
    .ok read ∧ List.Forall₂ SameObject objs read

/-- An object written alone is what `unmarshal_object` reads. -/
def SurvivesAlone (named : Bool) (obj : ModelObject cls) : Prop :=
  ∃ read, unmarshalObject world (given cls named) none (marshalObject world [] obj) =
    .ok read ∧ SameObject obj read

/-- The id is a text without tabs and line ends. -/
def HasId (obj : ModelObject cls) : Prop :=
  ∃ id, obj.id = some id ∧ IsPlain id

/-- Items that a list property takes back. -/
def AreItems : (itemType : ItemType) → List itemType.Carrier → Prop
  | .text .str, items => ∀ item ∈ items, item = []
  | .text .unicode, items => ∀ item ∈ items, item ≠ []
  | .text .basestring, _ => True
  | .integer, _ => True
  | .boolean, _ => True

/-- The object that the service returns for a reference after it was written and parsed. -/
def fetched (object : Reference) : Option Reference :=
  fetch world (attributeRead object.className) (attributeRead (object.id.getD []))

/-- A value that its property reads as it was: no number with a fraction, no `None` but for
references, texts in ASCII, and references that the service returns. -/
def IsReadBack : (type : PropertyType φ) → type.Carrier → Prop
  | .text _ _, value => ∃ text, value = some text ∧ ∀ c ∈ text, c.toNat < 128
  | .integer _ _ _, _ => True
  | .float _, _ => False
  | .boolean _, value => ∃ b, value = some b
  | .list itemType _, items => AreItems itemType items
  | .reference _, value => ∀ object ∈ value, fetched world object = some object

/-- The property refers to another object. -/
def HoldsObject : (type : PropertyType φ) → type.Carrier → Prop
  | .reference _, value => value ≠ none
  | _, _ => False

/-- The value is a list, the one that a new object has. -/
def IsDefaultList : (type : PropertyType φ) → type.Carrier → Prop
  | .list _ default, items => items = default
  | _, _ => False

/-- The condition for an object among others. -/
def IsListed (obj : ModelObject cls) : Prop :=
  HasId obj ∧ ∀ p ∈ cls.properties,
    IsReadBack world p.type (obj.value p) ∧ ¬HoldsObject p.type (obj.value p)

/-- The condition for an object alone. -/
def IsLoaded (obj : ModelObject cls) : Prop :=
  HasId obj ∧ ∀ p ∈ cls.properties,
    IsReadBack world p.type (obj.value p) ∨ IsDefaultList p.type (obj.value p)

end Survival

/-! ## Texts and attributes -/

theorem attributeRead_eq_self {text : Text} (hplain : IsPlain text) :
    attributeRead text = text := by
  induction text using attributeRead.induct with
  | case1 text ih =>
      have hspace := hplain '\r' (by simp)
      cases hspace
  | case2 c text hne ih =>
      have hc : isLineSpace c = false := hplain c (by simp)
      have htext : IsPlain text := fun d hd => hplain d (by simp [hd])
      rw [attributeRead, ih htext, hc]
      · rfl
      · exact hne
  | case3 => rfl

theorem isPlain_attributeRead (text : Text) : IsPlain (attributeRead text) := by
  induction text using attributeRead.induct with
  | case1 text ih =>
      intro c hc
      rw [attributeRead] at hc
      rcases List.mem_cons.mp hc with rfl | hc
      · rfl
      · exact ih c hc
  | case2 c text hne ih =>
      intro d hd
      rw [attributeRead] at hd
      · rcases List.mem_cons.mp hd with rfl | hd
        · split
          · rfl
          · next hspace => simpa using hspace
        · exact ih d hd
      · exact hne
  | case3 =>
      intro c hc
      cases hc

theorem attributeRead_eq_iff {text : Text} : attributeRead text = text ↔ IsPlain text := by
  constructor
  · intro heq
    rw [← heq]
    exact isPlain_attributeRead text
  · exact attributeRead_eq_self

theorem encodeAscii_eq_self {text : Text} (hascii : ∀ c ∈ text, c.toNat < 128) :
    encodeAscii text = text :=
  List.filter_eq_self.mpr fun c hc => decide_eq_true (hascii c hc)

theorem encodeAscii_eq_iff {text : Text} :
    encodeAscii text = text ↔ ∀ c ∈ text, c.toNat < 128 := by
  constructor
  · intro heq c hc
    rw [← heq] at hc
    exact of_decide_eq_true (List.mem_filter.mp hc).2
  · exact encodeAscii_eq_self

theorem encodeAscii_strInt (value : ℤ) : encodeAscii (strInt value) = strInt value := by
  refine encodeAscii_eq_self fun c hc => ?_
  rcases strInt_chars hc with hdigit | rfl
  · rw [Char.isDigit, Bool.and_eq_true, decide_eq_true_eq, decide_eq_true_eq] at hdigit
    have hhigh : c.toNat ≤ 57 := hdigit.2
    omega
  · decide

theorem strInt_ne_nil (value : ℤ) : strInt value ≠ [] := by
  rw [strInt]
  split
  · simp
  · exact decimal_ne_nil _

/-! ## Nodes after parsing -/

theorem getTextValue_text (text : Text) {name : String} {attributes : List (String × Text)} :
    getTextValue (.element name attributes (Node.allParsed [.text text])) = text := by
  rw [Node.allParsed, Node.allParsed, Node.parsed]
  by_cases hnil : text = []
  · rw [if_pos hnil, hnil]
    rfl
  · rw [if_neg hnil]
    simp [getTextValue, Node.childNodes]

theorem allParsed_append (nodes others : List Node) :
    Node.allParsed (nodes ++ others) = Node.allParsed nodes ++ Node.allParsed others := by
  induction nodes with
  | nil => rfl
  | cons node nodes ih =>
      rw [List.cons_append, Node.allParsed, ih, Node.allParsed, List.append_assoc]

/-- Nodes that are each parsed to one node. -/
theorem allParsed_map {α : Type} {node parsed : α → Node} {xs : List α}
    (hparsed : ∀ x ∈ xs, (node x).parsed = [parsed x]) :
    Node.allParsed (xs.map node) = xs.map parsed := by
  induction xs with
  | nil => rfl
  | cons x xs ih =>
      rw [List.map_cons, Node.allParsed, hparsed x (by simp),
        ih fun y hy => hparsed y (by simp [hy])]
      rfl

theorem allWithTag_map {α : Type} {name : String} {node : α → Node} {found : α → List Node}
    {xs : List α} (hfound : ∀ x ∈ xs, (node x).withTag name = found x) :
    Node.allWithTag name (xs.map node) = xs.flatMap found := by
  induction xs with
  | nil => rfl
  | cons x xs ih =>
      rw [List.map_cons, Node.allWithTag, hfound x (by simp), List.flatMap_cons,
        ih fun y hy => hfound y (by simp [hy])]

theorem allWithTag_parsed_text (name : String) (text : Text) :
    Node.allWithTag name (Node.allParsed [.text text]) = [] := by
  rw [Node.allParsed, Node.allParsed, Node.parsed]
  split <;> rfl

/-- The node of an item after parsing. -/
def itemNode (item : Text) : Node :=
  .element "item" [] (Node.allParsed [.text item])

/-- The node of the items of a list after parsing. -/
def itemsNode (items : List Text) : Node :=
  .element "items" [] (items.map itemNode)

theorem parsed_saveList (items : List Text) : (saveList items).parsed = [itemsNode items] := by
  have hitems : Node.allParsed (items.map fun item => Node.element "item" [] [.text item]) =
      items.map itemNode := by
    refine allParsed_map fun item _ => ?_
    rw [Node.parsed]
    rfl
  rw [saveList, Node.parsed, hitems]
  rfl

theorem withTag_itemNode {name : String} (item : Text) :
    (itemNode item).withTag name = if "item" = name then [itemNode item] else [] := by
  rw [itemNode, Node.withTag, allWithTag_parsed_text, List.append_nil]

theorem allWithTag_itemNodes (items : List Text) :
    Node.allWithTag "item" (items.map itemNode) = items.map itemNode := by
  rw [allWithTag_map fun item _ => withTag_itemNode item, List.map_eq_flatMap]
  simp

theorem allWithTag_itemNodes_of_ne {name : String} (hne : name ≠ "item") (items : List Text) :
    Node.allWithTag name (items.map itemNode) = [] := by
  rw [allWithTag_map fun item _ => withTag_itemNode item]
  simp [Ne.symm hne]

section Properties

variable {φ : Type} {cls : ModelClass φ} {world : World cls} {obj : ModelObject cls}
  {p : Property φ}

/-- The node of an object that a property refers to, after parsing. -/
def referenceNode (object : Reference) : Node :=
  .element "object" [("id", attributeRead (object.id.getD [])),
    ("class", attributeRead object.className)] []

/-- What is in the node of a property, after parsing. -/
def parsedContent (world : World cls) : (type : PropertyType φ) → type.Carrier → List Node
  | .list itemType _, items => [itemsNode (items.map (encodeItem itemType))]
  | .reference _, some object => [referenceNode object]
  | type, value => Node.allParsed (encodedNodes (encodeProp world type value))

theorem allParsed_encodedNodes (type : PropertyType φ) (value : type.Carrier) :
    Node.allParsed (encodedNodes (encodeProp world type value)) =
      parsedContent world type value := by
  cases type with
  | list itemType default =>
      change Node.allParsed [saveList (value.map (encodeItem itemType))] = _
      rw [Node.allParsed, parsed_saveList]
      rfl
  | reference checkInstance =>
      cases value with
      | none => rfl
      | some object => rfl
  | text maxLength default => rfl
  | integer min max default => rfl
  | float default => rfl
  | boolean default => rfl

/-- The node of a property after parsing. -/
def parsedProperty (world : World cls) (obj : ModelObject cls) (p : Property φ) : Node :=
  .element "property" [("name", attributeRead p.name), ("type", attributeRead p.typeName)]
    (parsedContent world p.type (obj.value p))

theorem parsed_propertyNode :
    (propertyNode world obj p).parsed = [parsedProperty world obj p] := by
  rw [propertyNode, Node.parsed, allParsed_encodedNodes]
  rfl

/-- The value that a reader finds in the node of a property. -/
def readValue (world : World cls) : (type : PropertyType φ) → type.Carrier → Value φ
  | .text _ _, value => .text (encodeAscii (value.getD []))
  | .integer _ _ _, value => .integer value
  | .float _, value => .text (world.floatText value)
  | .boolean _, value => .boolean (value.getD false)
  | .list itemType _, items => .list (items.map itemType.toItem)
  | .reference _, value =>
      match value.bind (fetched world) with
      | some object => .reference object
      | none => .none

theorem decodeBool_text (value : Bool) {name : String} {attributes : List (String × Text)} :
    decodeBool (.element name attributes (Node.allParsed [.text (encodeBool value)])) =
      value := by
  rw [decodeBool, getTextValue_text]
  cases value <;> decide

theorem decodeInt_text (value : ℤ) {name : String} {attributes : List (String × Text)} :
    decodeInt (.element name attributes (Node.allParsed [.text (strInt value)])) =
      .ok (some value) := by
  rw [decodeInt, getTextValue_text, if_neg (strInt_ne_nil value), parseInt_strInt]

theorem decodeItem_itemNode (itemType : ItemType) (value : itemType.Carrier) :
    decodeItem itemType (itemNode (encodeItem itemType value)) =
      .ok (itemType.toItem value) := by
  cases itemType with
  | text type =>
      change Except.ok (Item.text (getTextValue (itemNode value))) = _
      rw [itemNode, getTextValue_text]
      rfl
  | integer =>
      change (do
        match ← decodeInt (itemNode (strInt value)) with
        | some value => return Item.integer value
        | none => return Item.none) = _
      rw [itemNode, decodeInt_text]
      rfl
  | boolean =>
      change Except.ok (Item.boolean (decodeBool (itemNode (encodeBool value)))) = _
      rw [itemNode, decodeBool_text]
      rfl

theorem mapM_decodeItem (itemType : ItemType) (items : List itemType.Carrier) :
    ((items.map (encodeItem itemType)).map itemNode).mapM (decodeItem itemType) =
      .ok (items.map itemType.toItem) := by
  rw [List.map_map, List.mapM_map]
  exact ListResults.mapM_of_ok (decodeItem_itemNode itemType) items

theorem getList_itemsNode (itemType : ItemType) (items : List itemType.Carrier)
    {name : String} {attributes : List (String × Text)} :
    getList itemType (.element name attributes [itemsNode (items.map (encodeItem itemType))]) =
      .ok (items.map itemType.toItem) := by
  have hitems : Node.getElementsByTagName "items"
      (.element name attributes [itemsNode (items.map (encodeItem itemType))]) =
        [itemsNode (items.map (encodeItem itemType))] := by
    rw [Node.getElementsByTagName, Node.childNodes, Node.allWithTag, itemsNode, Node.withTag,
      allWithTag_itemNodes_of_ne (by decide)]
    rfl
  have hitem : Node.getElementsByTagName "item" (itemsNode (items.map (encodeItem itemType))) =
      (items.map (encodeItem itemType)).map itemNode :=
    allWithTag_itemNodes _
  rw [getList, hitems]
  change List.mapM (decodeItem itemType) (Node.getElementsByTagName "item"
    (itemsNode (items.map (encodeItem itemType)))) = _
  rw [hitem, mapM_decodeItem]

theorem getElementsByTagName_item (items : List Text) {name : String}
    {attributes : List (String × Text)} :
    Node.getElementsByTagName "item" (.element name attributes [itemsNode items]) =
      items.map itemNode := by
  rw [Node.getElementsByTagName, Node.childNodes, Node.allWithTag, itemsNode, Node.withTag,
    allWithTag_itemNodes]
  simp [Node.allWithTag]

/-- Both readers find this value in the node of a property. -/
theorem decodeValue_parsedContent (type : PropertyType φ) (value : type.Carrier)
    {name : String} {attributes : List (String × Text)} :
    decodeValue world type (.element name attributes (parsedContent world type value)) =
      .ok (readValue world type value) := by
  cases type with
  | text maxLength default =>
      cases value with
      | none => rfl
      | some text =>
          change Except.ok (Value.text (getTextValue (.element name attributes
            (Node.allParsed [.text (encodeAscii text)])))) = _
          rw [getTextValue_text]
          rfl
  | integer min max default =>
      change (do
        match ← decodeInt (.element name attributes
          (Node.allParsed [.text (encodeAscii (strInt value))])) with
        | some value => return Value.integer value
        | none => return Value.none) = _
      rw [encodeAscii_strInt, decodeInt_text]
      rfl
  | float default =>
      change Except.ok (Value.text (getTextValue (.element name attributes
        (Node.allParsed [.text (encodeAscii (world.floatText value))])))) = _
      rw [getTextValue_text, encodeAscii_eq_self (world.floatText_ascii value)]
      rfl
  | boolean default =>
      cases value with
      | none => rfl
      | some b =>
          have hascii : encodeAscii (encodeBool b) = encodeBool b := by cases b <;> decide
          change Except.ok (Value.boolean (decodeBool (.element name attributes
            (Node.allParsed [.text (encodeAscii (encodeBool b))])))) = _
          rw [hascii, decodeBool_text]
          rfl
  | list itemType default =>
      change Value.list <$> (Node.getElementsByTagName "item" (.element name attributes
        [itemsNode (value.map (encodeItem itemType))])).mapM (decodeItem itemType) = _
      rw [getElementsByTagName_item, mapM_decodeItem]
      rfl
  | reference checkInstance =>
      cases value with
      | none => rfl
      | some object => rfl

end Properties

/-! ## Objects after parsing -/

section Objects

variable {φ : Type} {cls : ModelClass φ} {world : World cls} {obj : ModelObject cls}
  {p : Property φ}

/-- The node of an object after parsing. -/
def parsedObject (world : World cls) (obj : ModelObject cls) : Node :=
  .element "object" ((idAttribute obj.id ++ [("class", cls.name)]).map fun pair =>
    (pair.1, attributeRead pair.2)) (cls.properties.map (parsedProperty world obj))

/-- The nodes of objects in the node of a property, after parsing. -/
def heldNodes : (type : PropertyType φ) → type.Carrier → List Node
  | .reference _, some object => [referenceNode object]
  | _, _ => []

theorem allParsed_queryToXml (objs : List (ModelObject cls)) :
    Node.allParsed (queryToXml world objs) = objs.map (parsedObject world) := by
  have happend : ∀ doc : Document, Node.allParsed (objs.foldl (marshalObject world) doc) =
      Node.allParsed doc ++ objs.map (parsedObject world) := by
    induction objs with
    | nil => exact fun doc => (List.append_nil _).symm
    | cons obj objs ih =>
        intro doc
        have hproperties : Node.allParsed (cls.properties.map (propertyNode world obj)) =
            cls.properties.map (parsedProperty world obj) :=
          allParsed_map fun p _ => parsed_propertyNode
        rw [List.foldl_cons, ih, marshalObject, allParsed_append, Node.allParsed, Node.parsed,
          hproperties, List.append_assoc]
        rfl
  exact happend []

/-- Apart from the nodes of a list, only a reference puts an element in its property. -/
theorem allWithTag_parsedContent {name : String} (hitems : name ≠ "items") (hitem : name ≠ "item")
    (type : PropertyType φ) (value : type.Carrier) :
    Node.allWithTag name (parsedContent world type value) =
      if "object" = name then heldNodes type value else [] := by
  have htext : ∀ text : Text, Node.allWithTag name (Node.allParsed [.text text]) =
      if "object" = name then [] else [] := by
    intro text
    rw [allWithTag_parsed_text, ite_self]
  have hnil : Node.allWithTag name [] = if "object" = name then [] else [] := by
    rw [ite_self, Node.allWithTag]
  cases type with
  | text maxLength default =>
      cases value with
      | none => exact hnil
      | some text => exact htext _
  | integer min max default => exact htext _
  | float default => exact htext _
  | boolean default =>
      cases value with
      | none => exact hnil
      | some b => exact htext _
  | list itemType default =>
      change Node.allWithTag name [itemsNode (value.map (encodeItem itemType))] = ite _ [] []
      rw [Node.allWithTag, itemsNode, Node.withTag, allWithTag_itemNodes_of_ne hitem,
        if_neg (Ne.symm hitems), ite_self]
      rfl
  | reference checkInstance =>
      cases value with
      | none => exact hnil
      | some object =>
          change (ite _ [_] [] ++ []) ++ [] = ite _ [_] []
          rw [List.append_nil, List.append_nil]
          rfl

theorem withTag_object_parsedObject :
    (parsedObject world obj).withTag "object" =
      parsedObject world obj ::
        cls.properties.flatMap fun p => heldNodes p.type (obj.value p) := by
  have hheld : Node.allWithTag "object" (cls.properties.map (parsedProperty world obj)) =
      cls.properties.flatMap fun p => heldNodes p.type (obj.value p) := by
    refine allWithTag_map fun p _ => ?_
    rw [parsedProperty, Node.withTag, allWithTag_parsedContent (by decide) (by decide)]
    rfl
  rw [parsedObject, Node.withTag, hheld]
  rfl

theorem getElementsByTagName_parsedObject :
    (parsedObject world obj).getElementsByTagName "property" =
      cls.properties.map (parsedProperty world obj) := by
  have hproperty : Node.allWithTag "property" (cls.properties.map (parsedProperty world obj)) =
      cls.properties.flatMap fun p => [parsedProperty world obj p] := by
    refine allWithTag_map fun p _ => ?_
    rw [parsedProperty, Node.withTag, allWithTag_parsedContent (by decide) (by decide)]
    rfl
  rw [List.map_eq_flatMap]
  exact hproperty

/-- The elements that the lister takes for objects. -/
theorem getElementsByTagName_queryToXml (objs : List (ModelObject cls)) :
    Document.getElementsByTagName "object" (Node.allParsed (queryToXml world objs)) =
      objs.flatMap fun obj =>
        parsedObject world obj ::
          cls.properties.flatMap fun p => heldNodes p.type (obj.value p) := by
  rw [allParsed_queryToXml, Document.getElementsByTagName, Node.withTag,
    allWithTag_map fun obj _ => withTag_object_parsedObject]
  rfl

theorem getAttribute_class_parsedObject :
    (parsedObject world obj).getAttribute "class" = cls.name := by
  have hname : attributeRead cls.name = cls.name := attributeRead_eq_self cls.plain.1
  rw [parsedObject, Node.getAttribute]
  cases obj.id with
  | none => exact hname
  | some id =>
      rw [idAttribute]
      split
      · exact hname
      · exact hname

theorem getAttribute_id_parsedObject :
    (parsedObject world obj).getAttribute "id" = attributeRead (obj.id.getD []) := by
  rw [parsedObject, Node.getAttribute]
  cases obj.id with
  | none => rfl
  | some id =>
      rw [idAttribute]
      split
      · next hnil =>
          rw [hnil]
          rfl
      · rfl

theorem hasId_iff : some ((parsedObject world obj).getAttribute "id") = obj.id ↔ HasId obj := by
  rw [getAttribute_id_parsedObject]
  cases hid : obj.id with
  | none =>
      refine iff_of_false (by simp) ?_
      rintro ⟨id, hsome, -⟩
      rw [hid] at hsome
      cases hsome
  | some id =>
      have heq : attributeRead id = id ↔ IsPlain id := attributeRead_eq_iff
      simp [HasId, hid, heq]

theorem findProperty_of_mem (hp : p ∈ cls.properties) : cls.findProperty p.name = some p := by
  cases hfind : cls.findProperty p.name with
  | none =>
      have hnot := List.find?_eq_none.mp hfind p hp
      simp at hnot
  | some q =>
      have hq : q ∈ cls.properties := List.mem_of_find?_eq_some hfind
      have hname : q.name = p.name := by simpa using List.find?_some hfind
      rw [List.inj_on_of_nodup_map cls.distinct hq hp hname]

/-! ## What a reader stores -/

/-- What is decoded from the node of a property. -/
theorem decodeValue_parsedProperty :
    decodeValue world p.type (parsedProperty world obj p) =
      .ok (readValue world p.type (obj.value p)) :=
  decodeValue_parsedContent p.type (obj.value p)

/-- The value that the lister finds is set. -/
theorem listedValue_parsedProperty (id : Option Text) (old : Value φ) :
    listedValue world id p (parsedProperty world obj p) old =
      store world id p.type (readValue world p.type (obj.value p)) := by
  have hdecode : decodeValue world p.type (parsedProperty world obj p) = _ :=
    decodeValue_parsedProperty
  obtain ⟨name, typeName, type⟩ := p
  cases type with
  | list itemType default =>
      have hlist : getList itemType
          (parsedProperty world obj ⟨name, typeName, .list itemType default⟩) =
            .ok ((obj.value ⟨name, typeName, .list itemType default⟩).map itemType.toItem) :=
        getList_itemsNode itemType _
      rw [listedValue]
      change (Value.list <$> getList itemType _ >>= _) = _
      rw [hlist]
      rfl
  | text maxLength default
  | integer min max default
  | float default
  | boolean default
  | reference checkInstance =>
      rw [listedValue]
      change (decodeValue world _ _ >>= _) = _
      rw [hdecode]
      rfl

theorem areItems_iff (itemType : ItemType) (items : List itemType.Carrier) :
    (items.map itemType.toItem).all (isItem itemType) = true ↔ AreItems itemType items := by
  cases itemType with
  | text type =>
      cases type with
      | str => simp [isItem, AreItems, ItemType.toItem]
      | unicode => simp [isItem, AreItems, ItemType.toItem]
      | basestring => simp [isItem, AreItems, ItemType.toItem]
  | integer => simp [isItem, AreItems, ItemType.toItem]
  | boolean => simp [isItem, AreItems, ItemType.toItem]

/-- A text gets no longer. -/
theorem store_encodeAscii {id : Option Text} {maxLength : Option ℕ} {default : Option Text}
    {value : Option Text} (hvalid : (PropertyType.text maxLength default :
      PropertyType φ).IsValid id value) :
    store world id (.text maxLength default) (.text (encodeAscii (value.getD []))) =
      .ok (.text (encodeAscii (value.getD []))) := by
  have hshort : maxLength.all ((encodeAscii (value.getD [])).length ≤ ·) = true := by
    cases maxLength with
    | none => rfl
    | some length =>
        cases value with
        | none => rfl
        | some text =>
            have hkept : (encodeAscii text).length ≤ text.length :=
              List.length_filter_le _ _
            have hlength : text.length ≤ length := hvalid text rfl length rfl
            exact decide_eq_true (hkept.trans hlength)
  rw [store, if_pos hshort]

theorem store_floatText {id : Option Text} {default : φ} (value : φ) :
    store world id (.float default) (.text (world.floatText value)) =
      .ok (.text (world.floatText value)) := by
  rw [store, if_pos (world.isFloatText_floatText value)]

/-- A value that was found is stored as the value of the object in these cases only. -/
theorem store_readValue_iff {id : Option Text} {type : PropertyType φ} {value : type.Carrier}
    (hvalid : type.IsValid id value) :
    store world id type (readValue world type value) = .ok (type.toValue value) ↔
      IsReadBack world type value := by
  cases type with
  | text maxLength default =>
      have hstore : store world id _ (.text (encodeAscii (value.getD []))) = _ :=
        store_encodeAscii hvalid
      cases value with
      | none =>
          refine iff_of_false ?_ ?_
          · intro heq
            cases hstore.symm.trans heq
          · rintro ⟨text, hsome, -⟩
            cases hsome
      | some text =>
          have hascii : IsReadBack world (.text maxLength default) (some text) ↔
              ∀ c ∈ text, c.toNat < 128 := by
            simp [IsReadBack]
          rw [hascii, ← encodeAscii_eq_iff]
          constructor
          · intro heq
            have hvalue := hstore.symm.trans heq
            injection hvalue with hvalue
            injection hvalue
          · intro heq
            exact hstore.trans (congrArg (Except.ok ∘ Value.text) heq)
  | integer min max default =>
      refine iff_of_true ?_ trivial
      change storeInteger min max value = _
      have hmin : min ≤ value := hvalid.1
      have hmax : value ≤ max := hvalid.2
      rw [storeInteger, if_neg (not_lt.mpr hmax), if_neg (not_lt.mpr hmin)]
      rfl
  | float default =>
      refine iff_of_false ?_ fun hread => hread
      intro heq
      cases (store_floatText value).symm.trans heq
  | boolean default =>
      cases value with
      | none =>
          refine iff_of_false ?_ ?_
          · intro heq
            cases heq
          · rintro ⟨b, hsome⟩
            cases hsome
      | some b => exact iff_of_true rfl ⟨b, rfl⟩
  | list itemType default =>
      change ite _ _ _ = _ ↔ AreItems itemType value
      rw [← areItems_iff]
      split
      · next hall => exact iff_of_true rfl hall
      · next hall =>
          refine iff_of_false ?_ hall
          intro heq
          cases heq
  | reference checkInstance =>
      cases value with
      | none =>
          refine iff_of_true rfl ?_
          rintro object hsome
          cases hsome
      | some object =>
          have hread : IsReadBack world (.reference checkInstance) (some object) ↔
              fetched world object = some object := by
            simp [IsReadBack]
          obtain ⟨hother, hinstance⟩ := hvalid object rfl
          rw [hread, readValue, Option.bind_some]
          cases hfetch : fetched world object with
          | none =>
              refine iff_of_false ?_ ?_
              · intro heq
                cases heq
              · intro heq
                cases heq
          | some found =>
              constructor
              · intro heq
                change ite _ _ (ite _ _ _) = _ at heq
                split at heq
                · cases heq
                · split at heq
                  · injection heq with heq
                    injection heq with heq
                    rw [heq]
                  · cases heq
              · intro heq
                cases heq
                change ite _ _ (ite _ _ _) = _
                rw [if_neg hother, if_pos hinstance]
                rfl

/-- What `get_object_from_doc` leaves in a property when it finds a value. -/
def loadedResult (world : World cls) (id : Option Text) (type : PropertyType φ)
    (old value : Value φ) : Value φ :=
  match value with
  | .none => old
  | value =>
      match store world id type value with
      | .ok stored => stored
      | .error _ => old

theorem loadedValue_parsedProperty (id : Option Text) (old : Value φ) :
    loadedValue world id p (parsedProperty world obj p) old =
      .ok (loadedResult world id p.type old (readValue world p.type (obj.value p))) := by
  rw [loadedValue, decodeValue_parsedProperty]
  unfold loadedResult
  change (match readValue world p.type (obj.value p) with
    | .none => Except.ok old
    | value =>
        match store world id p.type value with
        | .ok stored => .ok stored
        | .error _ => .ok old) = _
  split
  · rfl
  · split
    · rfl
    · rfl

theorem loadedResult_of_ok {id : Option Text} {type : PropertyType φ} {old value stored : Value φ}
    (hstore : store world id type value = .ok stored) (hne : value ≠ .none) :
    loadedResult world id type old value = stored := by
  unfold loadedResult
  split
  · exact absurd rfl hne
  · rw [hstore]

theorem loadedResult_of_error {id : Option Text} {type : PropertyType φ} {old value : Value φ}
    {e : Raised} (hstore : store world id type value = .error e) :
    loadedResult world id type old value = old := by
  unfold loadedResult
  split
  · rfl
  · rw [hstore]

theorem toItem_injective (itemType : ItemType) : Function.Injective itemType.toItem := by
  intro a b heq
  cases itemType with
  | text type => exact Item.text.inj heq
  | integer => exact Item.integer.inj heq
  | boolean => exact Item.boolean.inj heq

/-- Where a value that was found is always stored, the conditions of the readers agree. -/
theorem loadedResult_iff_of_ok {id : Option Text} {type : PropertyType φ}
    {value : type.Carrier} {stored : Value φ} (hvalid : type.IsValid id value)
    (hne : readValue world type value ≠ .none)
    (hstore : store world id type (readValue world type value) = .ok stored) :
    loadedResult world id type type.defaultValue (readValue world type value) =
        type.toValue value ↔ IsReadBack world type value := by
  rw [loadedResult_of_ok hstore hne, ← store_readValue_iff hvalid, hstore, Except.ok.injEq]

theorem loadedResult_iff {id : Option Text} {type : PropertyType φ} {value : type.Carrier}
    (hvalid : type.IsValid id value) :
    loadedResult world id type type.defaultValue (readValue world type value) =
        type.toValue value ↔
      IsReadBack world type value ∨ IsDefaultList type value := by
  cases type with
  | text maxLength default =>
      rw [loadedResult_iff_of_ok hvalid nofun (store_encodeAscii hvalid)]
      exact (or_iff_left not_false).symm
  | integer min max default =>
      rw [loadedResult_iff_of_ok hvalid nofun ((store_readValue_iff hvalid).mpr trivial)]
      exact (or_iff_left not_false).symm
  | float default =>
      rw [loadedResult_iff_of_ok hvalid nofun (store_floatText value)]
      exact (or_iff_left not_false).symm
  | boolean default =>
      rw [loadedResult_iff_of_ok hvalid nofun rfl]
      exact (or_iff_left not_false).symm
  | list itemType default =>
      change loadedResult world id _ _ (.list (value.map itemType.toItem)) = _ ↔
        AreItems itemType value ∨ value = default
      rw [← areItems_iff]
      by_cases hall : (value.map itemType.toItem).all (isItem itemType) = true
      · have hstore : store world id (.list itemType default)
            (.list (value.map itemType.toItem)) = .ok (.list (value.map itemType.toItem)) :=
          if_pos hall
        rw [loadedResult_of_ok hstore nofun]
        exact iff_of_true rfl (.inl hall)
      · have hstore : store world id (.list itemType default)
            (.list (value.map itemType.toItem)) = .error .valueError :=
          if_neg hall
        rw [loadedResult_of_error hstore, or_iff_right hall]
        change Value.list (default.map itemType.toItem) = .list (value.map itemType.toItem) ↔ _
        rw [Value.list.injEq, (toItem_injective itemType).list_map.eq_iff, eq_comm]
  | reference checkInstance =>
      rw [or_iff_left (show ¬IsDefaultList (.reference checkInstance) value from not_false),
        ← store_readValue_iff hvalid]
      cases value with
      | none => exact iff_of_true rfl rfl
      | some object =>
          cases hfetch : fetched world object with
          | none =>
              have hread : readValue world (.reference checkInstance) (some object) = .none := by
                rw [readValue, Option.bind_some, hfetch]
              rw [hread]
              exact iff_of_false nofun nofun
          | some found =>
              have hread : readValue world (.reference checkInstance) (some object) =
                  .reference found := by
                rw [readValue, Option.bind_some, hfetch]
              rw [hread]
              cases hstore : store world id (.reference checkInstance) (.reference found) with
              | ok stored => rw [loadedResult_of_ok hstore nofun, Except.ok.injEq]
              | error e =>
                  rw [loadedResult_of_error hstore]
                  exact iff_of_false nofun nofun

theorem loadedValue_iff (hvalid : p.type.IsValid obj.id (obj.value p)) :
    loadedValue world obj.id p (parsedProperty world obj p) p.type.defaultValue =
        .ok (p.type.toValue (obj.value p)) ↔
      IsReadBack world p.type (obj.value p) ∨ IsDefaultList p.type (obj.value p) := by
  rw [loadedValue_parsedProperty, Except.ok.injEq]
  exact loadedResult_iff hvalid

/-- The loop over the properties of a class sets each property once. -/
theorem fill_map_iff {missing : Except Raised Unit}
    {outcome : Property φ → Node → Value φ → Except Raised (Value φ)} {node : Property φ → Node}
    {properties : List (Property φ)}
    (hname : ∀ p ∈ properties, (node p).getAttribute "name" = p.name)
    (hfind : ∀ p ∈ properties, cls.findProperty p.name = some p)
    (hdistinct : (properties.map Property.name).Nodup) {values filled : Text → Value φ} :
    fill cls missing outcome (properties.map node) values = .ok filled ↔
      (∀ p ∈ properties, outcome p (node p) (values p.name) = .ok (filled p.name)) ∧
        ∀ name, name ∉ properties.map Property.name → filled name = values name := by
  induction properties generalizing values with
  | nil =>
      simp only [List.map_nil, fill, List.not_mem_nil, not_false_eq_true, forall_const,
        IsEmpty.forall_iff, implies_true, true_and, Except.ok.injEq]
      constructor
      · rintro rfl name
        rfl
      · exact fun heq => (funext heq).symm
  | cons p properties ih =>
      have hp : cls.findProperty ((node p).getAttribute "name") = some p := by
        rw [hname p (by simp)]
        exact hfind p (by simp)
      rw [List.map_cons, List.nodup_cons] at hdistinct
      have hother : ∀ q ∈ properties, q.name ≠ p.name := by
        intro q hq heq
        exact hdistinct.1 (heq ▸ List.mem_map_of_mem hq)
      have hnames : ∀ q ∈ properties, (node q).getAttribute "name" = q.name :=
        fun q hq => hname q (by simp [hq])
      have hfound : ∀ q ∈ properties, cls.findProperty q.name = some q :=
        fun q hq => hfind q (by simp [hq])
      rw [List.map_cons, fill, hp]
      change (do
        let value ← outcome p (node p) (values p.name)
        fill cls missing outcome (properties.map node)
          (Function.update values p.name value)) = _ ↔ _
      rw [except_bind_eq_ok]
      constructor
      · rintro ⟨value, hvalue, hfill⟩
        obtain ⟨hall, hkept⟩ := (ih hnames hfound hdistinct.2).mp hfill
        have hstored : filled p.name = value := by
          rw [hkept p.name hdistinct.1, Function.update_self]
        constructor
        · intro q hq
          rcases List.mem_cons.mp hq with rfl | hq
          · rw [hvalue, hstored]
          · rw [← hall q hq, Function.update_of_ne (hother q hq)]
        · intro name hnot
          rw [List.map_cons, List.mem_cons, not_or] at hnot
          rw [hkept name hnot.2, Function.update_of_ne hnot.1]
      · rintro ⟨hall, hkept⟩
        refine ⟨filled p.name, hall p (by simp), (ih hnames hfound hdistinct.2).mpr ⟨?_, ?_⟩⟩
        · intro q hq
          rw [Function.update_of_ne (hother q hq), hall q (by simp [hq])]
        · intro name hnot
          by_cases heq : name = p.name
          · rw [heq, Function.update_self]
          · rw [Function.update_of_ne heq]
            exact hkept name (by simpa [heq] using hnot)

/-- Reading every property of an object gives its values if each of them is read so. -/
theorem exists_fill_iff {missing : Except Raised Unit}
    {outcome : Property φ → Node → Value φ → Except Raised (Value φ)} :
    (∃ filled, fill cls missing outcome (cls.properties.map (parsedProperty world obj))
        (defaults cls) = .ok filled ∧
          ∀ p ∈ cls.properties, filled p.name = p.type.toValue (obj.value p)) ↔
      ∀ p ∈ cls.properties, outcome p (parsedProperty world obj p) p.type.defaultValue =
        .ok (p.type.toValue (obj.value p)) := by
  have hname : ∀ p ∈ cls.properties, (parsedProperty world obj p).getAttribute "name" = p.name :=
    fun p hp => attributeRead_eq_self (cls.plain.2 p hp)
  have hdefault : ∀ p ∈ cls.properties, defaults cls p.name = p.type.defaultValue := by
    intro p hp
    rw [defaults, findProperty_of_mem hp]
  constructor
  · rintro ⟨filled, hfill, hvalue⟩ p hp
    obtain ⟨hall, -⟩ :=
      (fill_map_iff hname (fun q hq => findProperty_of_mem hq) cls.distinct).mp hfill
    rw [← hdefault p hp, hall p hp, hvalue p hp]
  · intro hall
    let filled : Text → Value φ := fun name =>
      match cls.findProperty name with
      | some p => p.type.toValue (obj.value p)
      | none => .none
    have hfilled : ∀ p ∈ cls.properties, filled p.name = p.type.toValue (obj.value p) := by
      intro p hp
      change (match cls.findProperty p.name with
        | some p => p.type.toValue (obj.value p)
        | none => Value.none) = _
      rw [findProperty_of_mem hp]
    refine ⟨filled, (fill_map_iff hname (fun q hq => findProperty_of_mem hq)
      cls.distinct).mpr ⟨?_, ?_⟩, hfilled⟩
    · intro p hp
      rw [hdefault p hp, hall p hp, hfilled p hp]
    · intro name hnot
      have hnone : cls.findProperty name = none := by
        refine List.find?_eq_none.mpr fun p hp => ?_
        have hne : p.name ≠ name := fun heq => hnot (heq ▸ List.mem_map_of_mem hp)
        simpa using hne
      change (match cls.findProperty name with
        | some p => p.type.toValue (obj.value p)
        | none => Value.none) = defaults cls name
      rw [defaults, hnone]

/-- A reader gives back an object if it gives back its id and each property. -/
theorem exists_same_iff {missing : Except Raised Unit}
    {outcome : Property φ → Node → Value φ → Except Raised (Value φ)} :
    (∃ read, (do
        let values ← fill cls missing outcome
          ((parsedObject world obj).getElementsByTagName "property") (defaults cls)
        return (⟨some ((parsedObject world obj).getAttribute "id"), values⟩ : Instance φ)) =
          .ok read ∧ SameObject obj read) ↔
      HasId obj ∧ ∀ p ∈ cls.properties,
        outcome p (parsedProperty world obj p) p.type.defaultValue =
          .ok (p.type.toValue (obj.value p)) := by
  have hid : some ((parsedObject world obj).getAttribute "id") = obj.id ↔ HasId obj := hasId_iff
  rw [← hid, ← @exists_fill_iff _ _ world obj missing outcome, getElementsByTagName_parsedObject]
  constructor
  · rintro ⟨read, hread, hid, hvalues⟩
    obtain ⟨filled, hfill, hdone⟩ := except_bind_eq_ok.mp hread
    cases hdone
    exact ⟨hid, filled, hfill, hvalues⟩
  · rintro ⟨hid, filled, hfill, hvalues⟩
    exact ⟨_, except_bind_eq_ok.mpr ⟨filled, hfill, rfl⟩, hid, hvalues⟩

theorem exists_listedObject_iff :
    (∃ read, listedObject world cls (parsedObject world obj) = .ok read ∧ SameObject obj read) ↔
      HasId obj ∧ ∀ p ∈ cls.properties, IsReadBack world p.type (obj.value p) := by
  rw [listedObject, exists_same_iff]
  refine and_congr_right fun hid => forall₂_congr fun p hp => ?_
  rw [listedValue_parsedProperty, hasId_iff.mpr hid, store_readValue_iff (obj.valid p hp)]

/-- An object survives alone if it is loaded. -/
theorem survivesAlone_iff (named : Bool) :
    SurvivesAlone world named obj ↔ IsLoaded world obj := by
  have hdoc : Document.getElementsByTagName "object"
      (Node.allParsed (marshalObject world [] obj)) =
        [obj].flatMap fun obj => parsedObject world obj ::
          cls.properties.flatMap fun p => heldNodes p.type (obj.value p) :=
    getElementsByTagName_queryToXml [obj]
  have hclass : classOf world (given cls named) (parsedObject world obj) = .ok cls := by
    cases named with
    | true => rfl
    | false =>
        change (match world.findClass ((parsedObject world obj).getAttribute "class") with
          | some found => Except.ok found
          | none => .error Raised.typeError) = _
        rw [getAttribute_class_parsedObject, world.findClass_name]
  have hload : unmarshalObject world (given cls named) none (marshalObject world [] obj) = (do
      let values ← fill cls (.error .attributeError)
        (loadedValue world (some ((parsedObject world obj).getAttribute "id")))
        ((parsedObject world obj).getElementsByTagName "property") (defaults cls)
      return (⟨some ((parsedObject world obj).getAttribute "id"), values⟩ : Instance φ)) := by
    rw [unmarshalObject, getObjectFromDoc, hdoc]
    change (classOf world (given cls named) (parsedObject world obj) >>= _) = _
    rw [hclass]
    rfl
  rw [SurvivesAlone, hload, exists_same_iff, IsLoaded]
  refine and_congr_right fun hid => forall₂_congr fun p hp => ?_
  rw [hasId_iff.mpr hid, loadedValue_iff (obj.valid p hp)]

/-! ## Lists of objects -/

theorem heldNodes_eq_nil_iff {type : PropertyType φ} {value : type.Carrier} :
    heldNodes type value = [] ↔ ¬HoldsObject type value := by
  cases type with
  | reference checkInstance =>
      cases value with
      | none => exact iff_of_true rfl fun hne => hne rfl
      | some object => exact iff_of_false nofun fun hnot => hnot nofun
  | text maxLength default => exact iff_of_true rfl not_false
  | integer min max default => exact iff_of_true rfl not_false
  | float default => exact iff_of_true rfl not_false
  | boolean default => exact iff_of_true rfl not_false
  | list itemType default => exact iff_of_true rfl not_false

theorem listObjects_some (found : ModelClass φ) (nodes : List Node) :
    listObjects world (some found) nodes = nodes.mapM (listedObject world found) := by
  induction nodes with
  | nil => rfl
  | cons node nodes ih =>
      rw [listObjects, List.mapM_cons, ← ih]
      rfl

/-- The class of the first node is that of all the others. -/
theorem listObjects_given (named : Bool) {nodes : List Node}
    (hfirst : ∀ node ∈ nodes.head?, node.getAttribute "class" = cls.name) :
    listObjects world (given cls named) nodes = nodes.mapM (listedObject world cls) := by
  cases named with
  | true => exact listObjects_some cls nodes
  | false =>
      cases nodes with
      | nil => rfl
      | cons node nodes =>
          have hclass : classOf world none node = .ok cls := by
            rw [classOf, hfirst node rfl, world.findClass_name]
          rw [given, listObjects, List.mapM_cons, ← listObjects_some]
          change (classOf world none node >>= _) = _
          rw [hclass]
          rfl

/-- Each thing gives one element and some more, so that the lengths tell if there are more. -/
theorem forall_eq_nil_of_length_le {α β : Type} {first : α → β} {more : α → List β} {xs : List α}
    (hlength : (xs.flatMap fun x => first x :: more x).length ≤ xs.length) :
    ∀ x ∈ xs, more x = [] := by
  have hle : ∀ ys : List α, ys.length ≤ (ys.flatMap fun x => first x :: more x).length := by
    intro ys
    induction ys with
    | nil => simp
    | cons y ys ih =>
        rw [List.flatMap_cons, List.length_append, List.length_cons, List.length_cons]
        omega
  induction xs with
  | nil => exact fun x hx => nomatch hx
  | cons x xs ih =>
      have hrest := hle xs
      rw [List.flatMap_cons, List.length_append, List.length_cons, List.length_cons] at hlength
      rw [List.forall_mem_cons]
      exact ⟨List.eq_nil_of_length_eq_zero (by omega), ih (by omega)⟩

/-- Objects survive together if each of them is listed. -/
theorem survivesList_iff (named : Bool) (objs : List (ModelObject cls)) :
    SurvivesList world named objs ↔ ∀ obj ∈ objs, IsListed world obj := by
  let held : ModelObject cls → List Node := fun obj =>
    cls.properties.flatMap fun p => heldNodes p.type (obj.value p)
  have hheld : ∀ obj, held obj = [] ↔
      ∀ p ∈ cls.properties, ¬HoldsObject p.type (obj.value p) := by
    intro obj
    change List.flatMap _ _ = [] ↔ _
    rw [List.flatMap_eq_nil_iff]
    exact forall₂_congr fun p _ => heldNodes_eq_nil_iff
  have hlist : objectLister world (given cls named) (Node.allParsed (queryToXml world objs)) =
      (objs.flatMap fun obj => parsedObject world obj :: held obj).mapM
        (listedObject world cls) := by
    rw [objectLister, getElementsByTagName_queryToXml]
    refine listObjects_given named ?_
    cases objs with
    | nil => exact fun node hnode => nomatch hnode
    | cons obj objs =>
        intro node hnode
        cases hnode
        exact getAttribute_class_parsedObject
  rw [SurvivesList, hlist]
  by_cases hnone : ∀ obj ∈ objs, held obj = []
  · have hflat : (objs.flatMap fun obj => parsedObject world obj :: held obj) =
        objs.map (parsedObject world) := by
      rw [List.map_eq_flatMap]
      exact List.flatMap_congr fun obj hobj => by rw [hnone obj hobj]
    rw [hflat, List.mapM_map, ListResults.exists_mapM_forall₂_iff]
    refine forall₂_congr fun obj hobj => ?_
    have hnot := (hheld obj).mp (hnone obj hobj)
    refine exists_listedObject_iff.trans (and_congr_right fun _ => forall₂_congr fun p hp => ?_)
    exact (and_iff_left (hnot p hp)).symm
  · refine iff_of_false ?_ ?_
    · rintro ⟨read, hread, hsame⟩
      have hnodes := (ListResults.forall₂_of_mapM hread).length_eq
      rw [← hsame.length_eq] at hnodes
      exact hnone (forall_eq_nil_of_length_le hnodes.le)
    · intro hlisted
      refine hnone fun obj hobj => (hheld obj).mpr fun p hp => ?_
      exact ((hlisted obj hobj).2 p hp).2

end Objects

/-- **XML.**  Objects of a model class survive in one document exactly if each has an id without
tabs and line ends, no floating point property, texts in ASCII and no `None` among its texts and
truth values, items of the very type of their list, and no reference to another object.  Alone,
a reference survives if the service returns the object, and a list of any items if it is the
default one. -/
theorem survives_iff {φ : Type} {cls : ModelClass φ} (world : World cls) (named : Bool) :
    (∀ objs : List (ModelObject cls),
      SurvivesList world named objs ↔ ∀ obj ∈ objs, IsListed world obj) ∧
    ∀ obj : ModelObject cls, SurvivesAlone world named obj ↔ IsLoaded world obj := by
  constructor
  · exact fun objs => survivesList_iff named objs
  · exact fun obj => survivesAlone_iff named

/-- A class whose only property is a floating point number. -/
def itemClass : ModelClass Unit where
  name := "Item".toList
  properties := [⟨"price".toList, "Float".toList, .float ()⟩]
  distinct := by decide
  plain := by simp [IsPlain, isLineSpace]

/-- The number is the one that is written `1.5`. -/
def shop : World itemClass where
  floatText _ := "1.5".toList
  isFloatText _ := true
  floatText_ascii _ := by simp
  isFloatText_floatText _ := rfl
  findClass _ := some itemClass
  getByIds _ _ := none
  findClass_name := rfl

/-- An object with this number. -/
def item : ModelObject itemClass where
  id := some "i-1".toList
  value p := match p.type with
    | .text _ _ => none
    | .integer _ _ _ => (0 : ℤ)
    | .float _ => ()
    | .boolean _ => none
    | .list _ _ => []
    | .reference _ => none
  valid p hp := by
    rw [List.mem_singleton.mp hp]
    trivial

/-- The number is read back as a text. -/
theorem item_not_survives :
    ¬SurvivesList shop true [item] ∧ ¬SurvivesAlone shop true item := by
  have hprice : ¬IsReadBack shop (.float ())
      (item.value ⟨"price".toList, "Float".toList, .float ()⟩) := not_false
  rw [survivesList_iff, survivesAlone_iff]
  constructor
  · intro hlisted
    exact hprice ((hlisted item (by simp)).2 _ (List.mem_singleton_self _)).1
  · rintro ⟨-, hloaded⟩
    rcases hloaded _ (List.mem_singleton_self _) with hread | hdefault
    · exact hprice hread
    · exact hdefault

end Boto.SDB.XmlManager
