import Boto.Auth.Request
import Boto.Handler
import Boto.Support.Base64
import Boto.Support.LastEntries
import Boto.TextMethods

/-!
# Messages of a queue

`Message`, `MHMessage` and `EncodedMHMessage` of `boto/sqs/message.py` with what they have from
`RawMessage`, what `Queue.write` sends, and how `Queue.read` reads the answer of the service.
-/

namespace Boto.SQS

open Xml (Node)

/-! ## Bodies -/

/-- The classes of messages that encode their bodies. -/
inductive MessageClass
  | message
  | mhMessage
  | encodedMhMessage
  deriving DecidableEq

/-- The body of a message: a text, bytes, or headers. -/
inductive Body
  | text (value : Text)
  | bytes (value : Bytes)
  | headers (value : OrderedDict Text Text)

/-- What the body of a new message is when none is given. -/
def MessageClass.emptyBody : MessageClass → Body
  | .message => .text []
  | .mhMessage | .encodedMhMessage => .headers .empty

/-! ## Encoding -/

/-- `'%s: %s\n' % item`. -/
def headerLine (item : Text × Text) : Text :=
  item.1 ++ ':' :: ' ' :: (item.2 ++ ['\n'])

/-- `MHMessage.encode`. -/
def encodeHeaders : Body → Except PyError Text
  | .text _ => .error (.attributeError "'str' object has no attribute 'items'")
  | .bytes _ => .error (.attributeError "'bytes' object has no attribute 'items'")
  | .headers value => .ok (value.items.flatMap headerLine)

/-- `encode`. -/
def MessageClass.encode : MessageClass → Body → Except PyError Text
  | .message, .text value => .ok (Base64.encode (encodeUtf8 value))
  | .message, .bytes value => .ok (Base64.encode value)
  | .message, .headers _ => .error (.attributeError "'dict' object has no attribute 'encode'")
  | .mhMessage, value => encodeHeaders value
  | .encodedMhMessage, value =>
      (encodeHeaders value).map fun lines => Base64.encode (encodeUtf8 lines)

/-! ## Decoding -/

/-- The lines that `readline` reads one after the other. -/
def readlines : Text → List Text
  | [] => []
  | c :: text =>
      if c = '\n' then [c] :: readlines text
      else
        match readlines text with
        | [] => [[c]]
        | line :: lines => (c :: line) :: lines

/-- The name and the value in a line.  `find` gives -1 where there is no colon. -/
def headerOf (line : Text) : Text × Text :=
  match line.findIdx? (· = ':') with
  | some delim => (stripText (line.take delim), stripText (line.drop (delim + 1)))
  | none => (stripText line.dropLast, stripText line)

/-- The loop of `MHMessage.decode`. -/
def readHeaders (value : Text) : OrderedDict Text Text :=
  (readlines value).foldl (fun msg line => msg.set (headerOf line).1 (headerOf line).2) .empty

/-- `base64.b64decode(value.encode('utf-8')).decode('utf-8')`, if it raises nothing. -/
def decodeBase64 : Body → Option Text
  | .text value => (Base64.decode value).bind fun content => (Auth.decodeUtf8 content).toOption
  | .bytes _ | .headers _ => none

/-- `MHMessage.decode`. -/
def decodeHeaders : Body → Except PyError Body
  | .text value => .ok (.headers (readHeaders value))
  | .bytes _ | .headers _ => .error (.sqsDecodeError "Unable to decode message")

/-- `decode`.  Where a message cannot be decoded, `Message` returns what it was given. -/
def MessageClass.decode : MessageClass → Body → Except PyError Body
  | .message, value =>
      match decodeBase64 value with
      | some text => .ok (.text text)
      | none => .ok value
  | .mhMessage, value => decodeHeaders value
  | .encodedMhMessage, value =>
      match decodeBase64 value with
      | some text => decodeHeaders (.text text)
      | none => .error (.sqsDecodeError "Unable to decode message")

/-! ## Messages as they are read -/

/-- `Attributes`. -/
structure Attributes where
  items : OrderedDict (Option Text) (Option Text)
  currentKey : Option Text
  currentValue : Option Text

/-- `MessageAttributes`, whose values are dictionaries. -/
structure MessageAttributes where
  items : OrderedDict (Option Text) (Option (OrderedDict Text Text))
  currentKey : Option Text
  currentValue : Option (OrderedDict Text Text)

/-- A message. -/
structure Received where
  body : Body
  id : Option Text
  receiptHandle : Option Text
  md5 : Option Text
  md5MessageAttributes : Option Text
  attributes : Attributes
  messageAttributes : MessageAttributes

/-- A new message of a class. -/
def Received.init (cls : MessageClass) : Received where
  body := cls.emptyBody
  id := none
  receiptHandle := none
  md5 := none
  md5MessageAttributes := none
  attributes := { items := .empty, currentKey := none, currentValue := none }
  messageAttributes := { items := .empty, currentKey := none, currentValue := none }

/-- `RawMessage.endElement`. -/
def Received.endElement (name value : Text) (self : Received) : Received :=
  if name = "Body".toList then { self with body := .text value }
  else if name = "MessageId".toList then { self with id := some value }
  else if name = "ReceiptHandle".toList then { self with receiptHandle := some value }
  else if name = "MD5OfBody".toList then { self with md5 := some value }
  else if name = "MD5OfMessageAttributes".toList then
    { self with md5MessageAttributes := some value }
  else self

/-- `RawMessage.endNode`. -/
def Received.endNode (cls : MessageClass) (self : Received) : Except PyError Received :=
  (cls.decode self.body).map fun body => { self with body := body }

/-- `Attributes.endElement`. -/
def Attributes.endElement (name value : Text) (self : Attributes) : Attributes :=
  if name = "Attribute".toList then
    { self with items := self.items.set self.currentKey self.currentValue }
  else if name = "Name".toList then { self with currentKey := some value }
  else if name = "Value".toList then { self with currentValue := some value }
  else self

/-- `MessageAttributes.endElement`. -/
def MessageAttributes.endElement (name value : Text) (self : MessageAttributes) :
    MessageAttributes :=
  if name = "MessageAttribute".toList then
    { self with items := self.items.set self.currentKey self.currentValue }
  else if name = "Name".toList then { self with currentKey := some value }
  else self

/-- The keys of `MessageAttributeValue` for its elements. -/
def valueKeys : List (Text × Text) :=
  [("DataType".toList, "data_type".toList), ("StringValue".toList, "string_value".toList),
    ("BinaryValue".toList, "binary_value".toList),
    ("StringListValue".toList, "string_list_value".toList),
    ("BinaryListValue".toList, "binary_list_value".toList)]

/-- `MessageAttributeValue.endElement`, on the value that is read. -/
def MessageAttributes.endValueElement (name value : Text) (self : MessageAttributes) :
    MessageAttributes :=
  match valueKeys.lookup name with
  | some key =>
      { self with currentValue := self.currentValue.map fun current => current.set key value }
  | none => self

/-- The objects that are referred to while messages are read: the result set, the message that
was added last with its attributes, and a user. -/
inductive MessageRef
  | resultSet
  | message
  | attributes
  | messageAttributes
  | attributeValue
  | user
  deriving DecidableEq

/-- Changes the message that was added last. -/
def modifyLast (f : Received → Except PyError Received) (messages : List Received) :
    Except PyError (List Received) :=
  match messages.getLast? with
  | none => .ok messages
  | some message => (f message).map fun message => messages.dropLast ++ [message]

/-- Changes the attributes of a message. -/
def Received.modifyAttributes (f : MessageAttributes → MessageAttributes) (self : Received) :
    Received :=
  { self with messageAttributes := f self.messageAttributes }

/-- The message that was added last, with a new value for the message attribute that is read. -/
def startValue (messages : List Received) : List Received :=
  match messages.getLast? with
  | none => messages
  | some message =>
      messages.dropLast ++
        [message.modifyAttributes fun self => { self with currentValue := some .empty }]

/-- The methods of a result set of messages.  At the end of its own element, a message is decoded
after what it does at the end of every element. -/
def methods (cls : MessageClass) : Nodes MessageRef (List Received) where
  startElement
    | .resultSet, name, messages =>
        if name = "Message".toList then (some .message, messages ++ [.init cls])
        else if name = "Owner".toList then (some .user, messages)
        else (none, messages)
    | .message, name, messages =>
        if name = "Attribute".toList then (some .attributes, messages)
        else if name = "MessageAttribute".toList then (some .messageAttributes, messages)
        else (none, messages)
    | .messageAttributes, name, messages =>
        if name = "Value".toList then (some .attributeValue, startValue messages)
        else (none, messages)
    | .attributes, _, messages => (none, messages)
    | .attributeValue, _, messages => (none, messages)
    | .user, _, messages => (none, messages)
  endElement
    | .message, name, value, messages =>
        modifyLast (fun self =>
          if name = "Message".toList then (self.endElement name value).endNode cls
          else .ok (self.endElement name value)) messages
    | .attributes, name, value, messages =>
        modifyLast (fun self =>
          .ok { self with attributes := self.attributes.endElement name value }) messages
    | .messageAttributes, name, value, messages =>
        modifyLast (fun self => .ok (self.modifyAttributes (·.endElement name value))) messages
    | .attributeValue, name, value, messages =>
        modifyLast (fun self => .ok (self.modifyAttributes (·.endValueElement name value)))
          messages
    | .resultSet, _, _, messages => .ok messages
    | .user, _, _, messages => .ok messages

/-! ## The service -/

/-- What the service tells of a message besides its body. -/
structure Envelope where
  messageId : Text
  receiptHandle : Text
  md5OfBody : Text
  attributes : List (Text × Text)
  md5OfMessageAttributes : Option Text
  messageAttributes : List (Text × Text × Text)
  requestId : Text

namespace Envelope

/-- The element of an attribute. -/
def attributeElement (pair : Text × Text) : Node :=
  .element "Attribute".toList
    [.leaf "Name".toList pair.1, .leaf "Value".toList pair.2]

/-- The element of a message attribute, with its name, its value and the type of this. -/
def messageAttributeElement (named : Text × Text × Text) : Node :=
  .element "MessageAttribute".toList
    [.leaf "Name".toList named.1,
      .element "Value".toList
        [.leaf "StringValue".toList named.2.1, .leaf "DataType".toList named.2.2]]

/-- What is in the element of a message before its body. -/
def front (self : Envelope) : List Node :=
  [.leaf "MessageId".toList self.messageId, .leaf "ReceiptHandle".toList self.receiptHandle,
    .leaf "MD5OfBody".toList self.md5OfBody]

/-- What is in the element of a message after its body. -/
def back (self : Envelope) : List Node :=
  self.attributes.map attributeElement ++
    (self.md5OfMessageAttributes.toList.map (Node.leaf "MD5OfMessageAttributes".toList) ++
      self.messageAttributes.map messageAttributeElement)

/-- The answer to a request for one message, whose body is given. -/
def reply (self : Envelope) (stored : Text) : Node :=
  .element "ReceiveMessageResponse".toList
    [.element "ReceiveMessageResult".toList
        [.element "Message".toList
          (self.front ++ (.leaf "Body".toList stored :: self.back))],
      .element "ResponseMetadata".toList [.leaf "RequestId".toList self.requestId]]

end Envelope

/-- The answer of a queue without messages. -/
def emptyReply (requestId : Text) : Node :=
  .element "ReceiveMessageResponse".toList
    [.element "ReceiveMessageResult".toList [],
      .element "ResponseMetadata".toList [.leaf "RequestId".toList requestId]]

/-- `Queue.read`, which gets at most one message. -/
def read (cls : MessageClass) (answer : Node) : Except PyError (Option Received) :=
  (XmlHandler.parse (methods cls) .resultSet [] answer.events).map fun
    | [message] => some message
    | _ => none

/-- `Queue.write`: the body that the service has then, if it does not refuse it. -/
def write (accepts : Text → Bool) (cls : MessageClass) (body : Body) : Except PyError Text := do
  let content ← cls.encode body
  if accepts content then return content else .error .requestError

end Boto.SQS
