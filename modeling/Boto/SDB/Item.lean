import Boto.Python
import Boto.Support.Base64
import Boto.Support.OrderedDict

/-!
# Items of SimpleDB

An `Item` of `boto/sdb/item.py` is a dictionary that is its own handler of the XML of
`GetAttributes`.  As `startElement` gives no other node, all events of a document are the
item's.
-/

namespace Boto.SDB

/-- A string.  In Python 2 a byte string of ASCII characters is equal to the text of these,
so it is taken for that text. -/
inductive Str
  | text (content : Text)
  | bytes (content : Bytes)
  deriving DecidableEq

/-- A byte string, as a string. -/
def Str.ofBytes (content : Bytes) : Str :=
  if content.all (· < 128) then .text (content.map fun b => Char.ofNat b.toNat)
  else .bytes content

/-- What an item has for an attribute. -/
inductive Entry (V : Type)
  | scalar (value : V)
  | list (values : List V)

/-- `Item`, with what `setattr` gave it under other names. -/
structure Item (V : Type) where
  entries : OrderedDict Str (Entry V)
  name : Str
  requestId : Option Text
  encoding : Option Text
  inAttribute : Bool
  lastKey : Option Str
  others : OrderedDict Text Text

/-- What a parser reports; of the attributes of an element only `encoding` is read. -/
inductive Event
  | startElement (name : Text) (encoding : Option Text)
  | characters (content : Text)
  | endElement (name : Text)

variable {V : Type}

namespace Item

/-- `startElement`. -/
def startElement (name : Text) (encoding : Option Text) (self : Item V) : Item V :=
  { self with
    inAttribute := if name = "Attribute".toList then true else self.inAttribute
    encoding := encoding }

/-- `decode_value`.  In Python 3 `base64.decodestring` takes no text. -/
def decodeValue (version : PyVersion) (value : Text) (self : Item V) :
    Except PyError (Str × Item V) :=
  if self.encoding = some "base64".toList then
    match version with
    | .py2 =>
        match Base64.decode value with
        | none => .error (.binasciiError "Incorrect padding")
        | some content => .ok (.ofBytes content, { self with encoding := none })
    | .py3 => .error (.typeError "expected bytes-like object, not str")
  else .ok (.text value, self)

/-- Adds a value to an entry, which becomes a list if there is one already. -/
def addValue (entries : OrderedDict Str (Entry V)) (key : Str) (value : V) :
    OrderedDict Str (Entry V) :=
  match entries.get? key with
  | none => entries.set key (.scalar value)
  | some (.scalar old) => entries.set key (.list [old, value])
  | some (.list values) => entries.set key (.list (values ++ [value]))

/-- `endElement`, where `decode` is `converter.decode`, or leaves a string as it is if there is
no converter.  What goes wrong with a `BoxUsage` is passed over. -/
def endElement (version : PyVersion) (decode : Str → V) (name value : Text) (self : Item V) :
    Except PyError (Item V) :=
  if name = "ItemName".toList then do
    let (name, self) ← self.decodeValue version value
    return { self with name := name }
  else if name = "Name".toList then do
    let (name, decoded) ← self.decodeValue version value
    if self.inAttribute then return { decoded with lastKey := some name }
    else return { decoded with name := name }
  else if name = "Value".toList then
    match self.lastKey with
    | none => .error (.attributeError "'Item' object has no attribute 'last_key'")
    | some lastKey => do
        let (value, self) ← self.decodeValue version value
        return { self with entries := addValue self.entries lastKey (decode value) }
  else if name = "BoxUsage".toList then .ok self
  else if name = "RequestId".toList then .ok { self with requestId := some value }
  else if name = "Attribute".toList then .ok { self with inAttribute := false }
  else .ok { self with others := self.others.set name value }

/-- `XmlHandler`, whose only node is an item. -/
structure Handler (V : Type) where
  item : Item V
  currentText : Text

/-- What an event does. -/
def step (version : PyVersion) (decode : Str → V) (self : Handler V) :
    Event → Except PyError (Handler V)
  | .startElement name encoding => .ok ⟨self.item.startElement name encoding, []⟩
  | .characters content => .ok { self with currentText := self.currentText ++ content }
  | .endElement name => do
      let item ← self.item.endElement version decode name self.currentText
      return ⟨item, []⟩

/-- What some events do. -/
def run (version : PyVersion) (decode : Str → V) (self : Handler V) (events : List Event) :
    Except PyError (Handler V) :=
  events.foldlM (step version decode) self

end Item

/-! ## The service -/

/-- SimpleDB: the attributes of an item, one pair for each of their values, and which strings
are not given as they are but in base64.  The other fields are the white space between the
elements of a response and what it says about the request. -/
structure Service where
  stored : Str → List (Text × Text)
  inBase64 : Text → Bool
  space : Text
  requestId : Text
  boxUsage : Text

namespace Service

variable (service : Service)

/-- An element that has only characters. -/
def leaf (name : String) (encoding : Option Text) (content : Text) : List Event :=
  [.startElement name.toList encoding, .characters content, .endElement name.toList]

/-- An element that has others, with white space between them. -/
def element (name : String) (children : List (List Event)) : List Event :=
  .startElement name.toList none :: (children.flatMap (.characters service.space :: ·) ++
    [.characters service.space, .endElement name.toList])

/-- The attribute of an element for a string. -/
def encodingOf (content : Text) : Option Text :=
  if service.inBase64 content then some "base64".toList else none

/-- The characters of an element for a string. -/
def written (content : Text) : Text :=
  if service.inBase64 content then Base64.encode (encodeUtf8 content) else content

/-- An element for a string. -/
def string (name : String) (content : Text) : List Event :=
  leaf name (service.encodingOf content) (service.written content)

/-- What a string is to a program in Python 2. -/
def str (content : Text) : Str :=
  if service.inBase64 content then .ofBytes (encodeUtf8 content) else .text content

/-- The element of a pair. -/
def attributeElement (pair : Text × Text) : List Event :=
  service.element "Attribute" [service.string "Name" pair.1, service.string "Value" pair.2]

/-- The response to `GetAttributes`. -/
def getAttributes (name : Str) : List Event :=
  service.element "GetAttributesResponse"
    [service.element "GetAttributesResult" ((service.stored name).map service.attributeElement),
      service.element "ResponseMetadata"
        [leaf "RequestId" none service.requestId, leaf "BoxUsage" none service.boxUsage]]

/-- The values that are stored for a key, as the program sees them. -/
def valuesOf (decode : Str → V) (name : Str) (key : Str) : List V :=
  (service.stored name).filterMap fun pair =>
    if service.str pair.1 = key then some (decode (service.str pair.2)) else none

end Service

/-- `Item.load`, which makes the item the handler of the response. -/
def Item.load (version : PyVersion) (decode : Str → V) (service : Service) (self : Item V) :
    Except PyError (Item V) :=
  (run version decode ⟨self, []⟩ (service.getAttributes self.name)).map Handler.item

/-- An object has exactly the stored values of every attribute that is stored, and what it had
of the others. -/
def Item.Reflects (decode : Str → V) (service : Service) (self loaded : Item V) : Prop :=
  ∀ key, loaded.entries.get? key =
    match service.valuesOf decode self.name key with
    | [] => self.entries.get? key
    | [value] => some (.scalar value)
    | values => some (.list values)

/-- `load` succeeds, and the item reflects the stored one. -/
def Item.LoadReflects (version : PyVersion) (decode : Str → V) (service : Service)
    (self : Item V) : Prop :=
  ∃ loaded, self.load version decode service = .ok loaded ∧ self.Reflects decode service loaded

/-- `load` succeeds, the item reflects the stored one, and another `load` does not change it. -/
def Item.LoadSettles (version : PyVersion) (decode : Str → V) (service : Service)
    (self : Item V) : Prop :=
  ∃ loaded, self.load version decode service = .ok loaded ∧
    self.Reflects decode service loaded ∧
    ∃ again, loaded.load version decode service = .ok again ∧
      ∀ key, again.entries.get? key = loaded.entries.get? key

end Boto.SDB
