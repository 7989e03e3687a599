import Boto.SQS.Batch
import Boto.SQS.Transparency

/-!
# Writing messages in a batch and singly

`Queue.write` sends what the class of a message encodes, and `Queue.write_batch` what it is given;
every read goes through the decoding of the class.
-/

namespace Boto.SQS

open Xml (Node)

/-! ## Mappings as texts -/

/-- A character in the `repr` of a text; which characters beyond ASCII are printable is a table of
the language. -/
def reprChar (printable : Char → Bool) (quote c : Char) : Text :=
  if c = quote ∨ c = '\\' then ['\\', c]
  else if c = '\n' then ['\\', 'n']
  else if c = '\r' then ['\\', 'r']
  else if c = '\t' then ['\\', 't']
  else if 0x20 ≤ c.toNat ∧ c.toNat < 0x7F then [c]
  else if 0x7F < c.toNat ∧ printable c = true then [c]
  else
    let byte (i : ℕ) := hexDigits (UInt8.ofNat (c.toNat / 256 ^ i))
    if c.toNat < 0x100 then '\\' :: 'x' :: byte 0
    else if c.toNat < 0x10000 then '\\' :: 'u' :: (byte 1 ++ byte 0)
    else '\\' :: 'U' :: (byte 3 ++ byte 2 ++ byte 1 ++ byte 0)

/-- `repr` of a text. -/
def reprText (printable : Char → Bool) (text : Text) : Text :=
  let quote := if '\'' ∈ text ∧ '"' ∉ text then '"' else '\''
  quote :: (text.flatMap (reprChar printable quote) ++ [quote])

/-- An item in the `repr` of a mapping. -/
def reprItem (printable : Char → Bool) (item : Text × Text) : Text :=
  reprText printable item.1 ++ ':' :: ' ' :: reprText printable item.2

/-- `repr` of a mapping. -/
def reprHeaders (printable : Char → Bool) (headers : OrderedDict Text Text) : Text :=
  '\x7b' :: (((headers.items.map (reprItem printable)).intersperse [',', ' ']).flatten ++ ['\x7d'])

/-- What `get_utf8_value` sends of a body. -/
def sentBody (printable : Char → Bool) : Value → Option Text
  | .text value => some value
  | .headers value => some (reprHeaders printable value)
  | _ => none

/-! ## Classes -/

/-- The classes of messages. -/
inductive QueueClass
  | raw
  | encoded (cls : MessageClass)

namespace QueueClass

/-- `encode`. -/
def encode : QueueClass → Body → Except PyError Value
  | raw, .text value => .ok (.text value)
  | raw, .bytes value => .ok (.bytes value)
  | raw, .headers value => .ok (.headers value)
  | encoded cls, body => (cls.encode body).map .text

/-- `decode`. -/
def decode : QueueClass → Body → Except PyError Body
  | raw, body => .ok body
  | encoded cls, body => cls.decode body

/-- The methods of a result set of messages. -/
def methods : QueueClass → Nodes MessageRef (List Received)
  | encoded cls => SQS.methods cls
  | raw =>
      { startElement := (SQS.methods .message).startElement
        endElement := fun ref name value messages =>
          match ref with
          | .message => modifyLast (fun self => .ok (self.endElement name value)) messages
          | ref => (SQS.methods .message).endElement ref name value messages }

/-- `Queue.read`. -/
def read (cls : QueueClass) (answer : Node) : Except PyError (Option Received) :=
  (XmlHandler.parse cls.methods .resultSet [] answer.events).map fun
    | [message] => some message
    | _ => none

/-- The kind of bodies that a class holds. -/
def Holds : QueueClass → Body → Prop
  | raw, .text _ => True
  | encoded .message, .text _ => True
  | encoded .mhMessage, .headers _ => True
  | encoded .encodedMhMessage, .headers _ => True
  | _, _ => False

end QueueClass

/-! ## Writing -/

/-- `send_message`. -/
def sendMessage (content : Value) (delay : ℤ) (attributes : SentAttributes) : Params :=
  let params := OrderedDict.empty.set "MessageBody".toList content
  let params := if delay ≠ 0 then params.set "DelaySeconds".toList (.number delay) else params
  setAttributes "MessageAttribute".toList attributes params

/-- A message that is to be written. -/
structure BatchEntry where
  id : Text
  body : Body
  delay : ℤ
  attributes : Option SentAttributes

/-- A body as the value of a parameter. -/
def Value.ofBody : Body → Value
  | .text value => .text value
  | .bytes value => .bytes value
  | .headers value => .headers value

/-- The tuple of an entry. -/
def BatchEntry.tuple (self : BatchEntry) : SendEntry :=
  ⟨self.id, .ofBody self.body, self.delay, self.attributes⟩

/-! ## The service -/

/-- A message in the queue. -/
structure Stored where
  body : Value
  delay : ℤ
  attributes : List (Text × Value)

/-- A queue: the delay of messages that are sent without one, and what an answer says of a message
with some attributes. -/
structure QueueService where
  delay : ℤ
  describe : List (Text × Value) → Envelope

/-- The value of a field. -/
def fieldOf (name : Text) (fields : List (Text × Value)) : Option Value :=
  (fields.find? fun field => decide (field.1 = name)).map Prod.snd

/-- The message that is made from the parameters of a request. -/
def QueueService.store (service : QueueService) (fields : List (Text × Value)) : Stored where
  body := (fieldOf "MessageBody".toList fields).getD .null
  delay :=
    match fieldOf "DelaySeconds".toList fields with
    | some (.number delay) => delay
    | _ => service.delay
  attributes := fields.filter fun field => "MessageAttribute.".toList.isPrefixOf field.1

/-- The rest of a name with a given beginning. -/
def afterFront (front name : Text) : Option Text :=
  if front.isPrefixOf name = true then some (name.drop front.length) else none

/-- The parameters of one entry of a batch. -/
def entryFields (base : Text) (i : ℕ) (items : List (Text × Value)) : List (Text × Value) :=
  items.filterMap fun item =>
    (afterFront (numbered base i []) item.1).map fun name => (name, item.2)

/-- The message after `Queue.write`. -/
def QueueService.write (service : QueueService) (cls : QueueClass) (entry : BatchEntry) :
    Except PyError Stored :=
  (cls.encode entry.body).map fun content =>
    service.store (sendMessage content entry.delay (entry.attributes.getD .empty)).items

/-- A message after `Queue.write_batch`. -/
def QueueService.writeBatch (service : QueueService) (entries : List BatchEntry) (i : ℕ) : Stored :=
  service.store (entryFields "SendMessageBatchRequestEntry".toList i
    (sendMessageBatch (entries.map BatchEntry.tuple)).items)

/-- What is read of a message in the queue. -/
def QueueService.ReadsBack (service : QueueService) (printable : Char → Bool) (cls : QueueClass)
    (stored : Stored) (message : Received) : Prop :=
  ∃ text, sentBody printable stored.body = some text ∧
    cls.read ((service.describe stored.attributes).reply text) = .ok (some message)

/-- A message that was written in a batch is read like one that was written singly. -/
def Agrees (service : QueueService) (printable : Char → Bool) (cls : QueueClass)
    (entry : BatchEntry) (batched : Stored) : Prop :=
  ∃ single message message', service.write cls entry = .ok single ∧
    service.ReadsBack printable cls single message ∧
    service.ReadsBack printable cls batched message' ∧
    SameContent message.body message'.body ∧ single.delay = batched.delay ∧
    message.messageAttributes = message'.messageAttributes

/-- Bodies that are read as they were sent, although nothing encoded them. -/
def IsKept (printable : Char → Bool) : QueueClass → Body → Prop
  | .raw, .text _ => True
  | .encoded .message, .text value => value = [] ∨ decodeBase64 (.text value) = none
  | .encoded .encodedMhMessage, .headers headers =>
      ∃ text, decodeBase64 (.text (reprHeaders printable headers)) = some text ∧
        ∀ name, (readHeaders text).get? name =
          (readHeaders (headers.items.flatMap headerLine)).get? name
  | _, _ => False

/-! ## Parameters -/

section

variable {ν : Type} {base name : Text} {i j : ℕ}

theorem afterFront_numbered :
    afterFront (numbered base i []) (numbered base j name) = if j = i then some name else none := by
  have hfront : ∀ rest, numbered base i rest = numbered base i [] ++ rest := by
    intro rest
    simp only [numbered, List.append_assoc, List.cons_append, List.nil_append]
  rw [afterFront]
  split
  · rename_i hbegins
    obtain ⟨rest, hrest⟩ := List.isPrefixOf_iff_prefix.mp hbegins
    rw [← hfront] at hrest
    obtain ⟨rfl, rfl⟩ := numbered_inj hrest
    rw [if_pos rfl, hfront rest, List.drop_left]
  · rename_i hbegins
    rw [if_neg]
    rintro rfl
    exact hbegins (List.isPrefixOf_iff_prefix.mpr ⟨name, (hfront name).symm⟩)

theorem entryFields_recordItems (fields : List (Text × Value)) :
    entryFields base i (recordItems base j fields) = if j = i then fields else [] := by
  rw [entryFields, recordItems, List.filterMap_map]
  have hitem : ∀ field : Text × Value, (afterFront (numbered base i []) (numbered base j field.1)).map
      (fun name => (name, field.2)) = if j = i then some field else none := by
    intro field
    rw [afterFront_numbered]
    split
    · rfl
    · rfl
  split
  · rename_i heq
    refine (List.filterMap_congr fun field _ => ?_).trans (List.filterMap_some)
    exact (hitem field).trans (if_pos heq)
  · rename_i hne
    rw [List.filterMap_eq_nil_iff]
    exact fun field _ => (hitem field).trans (if_neg hne)

/-- The parameters of an entry are found by its index. -/
theorem entryFields_numberedFrom (records : List (List (Text × Value))) (i : ℕ) :
    entryFields base (j + i) (numberedFrom base j records) = records[i]?.getD [] := by
  induction records generalizing i j with
  | nil => rfl
  | cons fields records ih =>
      have happend : entryFields base (j + i) (numberedFrom base j (fields :: records)) =
          entryFields base (j + i) (recordItems base j fields) ++
            entryFields base (j + i) (numberedFrom base (j + 1) records) := List.filterMap_append
      rw [happend, entryFields_recordItems]
      cases i with
      | zero =>
          have hrest : entryFields base (j + 0) (numberedFrom base (j + 1) records) = [] := by
            rw [entryFields, List.filterMap_eq_nil_iff]
            intro item hitem
            obtain ⟨n, fields, -, field, -, rfl⟩ := mem_numberedFrom.mp hitem
            rw [afterFront_numbered, if_neg (by omega)]
            rfl
          rw [hrest, if_pos (Nat.add_zero j).symm, List.append_nil]
          rfl
      | succ i =>
          rw [if_neg (by omega), ← Nat.add_assoc, Nat.add_right_comm, ih]
          rfl

end

section

variable (service : QueueService) (content : Value) (delay : ℤ) (attributes : SentAttributes)

/-- The parameters of the attributes of a message. -/
def attributeItems : List (Text × Value) :=
  numberedItems "MessageAttribute".toList ((sortedAttributes attributes).map attributeFields)

/-- The parameters of a message that is sent alone. -/
def singleFields : List (Text × Value) :=
  ("MessageBody".toList, content) ::
    ((if delay ≠ 0 then [("DelaySeconds".toList, .number delay)] else []) ++
      attributeItems attributes)

variable {attributes} in
theorem begins_of_mem_attributeItems {item : Text × Value} (hitem : item ∈ attributeItems attributes) :
    "MessageAttribute.".toList.isPrefixOf item.1 = true := by
  obtain ⟨j, fields, -, field, -, rfl⟩ := mem_numberedFrom.mp hitem
  rfl

theorem filter_attributeItems : (attributeItems attributes).filter
    (fun field => "MessageAttribute.".toList.isPrefixOf field.1) = attributeItems attributes :=
  List.filter_eq_self.mpr fun _ hitem => begins_of_mem_attributeItems hitem

theorem items_sendMessage :
    (sendMessage content delay attributes).items = singleFields content delay attributes := by
  have hsend : sendMessage content delay attributes =
      setAll .empty (singleFields content delay attributes) := by
    rw [sendMessage, setAttributes_eq, singleFields]
    split
    · rfl
    · rfl
  have hsub : (singleFields content delay attributes).Sublist
      (SendEntry.fields ⟨[], content, delay, some attributes⟩) := by
    apply List.Sublist.cons
    apply List.Sublist.cons_cons
    split
    · exact List.Sublist.refl _
    · exact (List.Sublist.refl _).cons _
  rw [hsend]
  exact items_setAll ((nodup_fields _).sublist (hsub.map _))

theorem store_singleFields : service.store (singleFields content delay attributes) =
    ⟨content, if delay ≠ 0 then delay else service.delay, attributeItems attributes⟩ := by
  have hnone : fieldOf "DelaySeconds".toList (attributeItems attributes) = none := by
    rw [fieldOf, Option.map_eq_none_iff, List.find?_eq_none]
    intro item hitem
    rw [decide_eq_true_eq]
    intro heq
    have hbegins := begins_of_mem_attributeItems hitem
    rw [heq] at hbegins
    revert hbegins
    decide
  by_cases hdelay : delay ≠ 0
  · have hfields : singleFields content delay attributes = ("MessageBody".toList, content) ::
        ("DelaySeconds".toList, .number delay) :: attributeItems attributes := by
      rw [singleFields, if_pos hdelay]
      rfl
    rw [hfields, QueueService.store, if_pos hdelay]
    congr 1
    exact filter_attributeItems attributes
  · have hfields : singleFields content delay attributes =
        ("MessageBody".toList, content) :: attributeItems attributes := by
      rw [singleFields, if_neg hdelay]
      rfl
    have hdelayed : fieldOf "DelaySeconds".toList
        (("MessageBody".toList, content) :: attributeItems attributes) = none := hnone
    rw [hfields, QueueService.store, if_neg hdelay, hdelayed]
    congr 1
    exact filter_attributeItems attributes

theorem store_fields (entry : SendEntry) : service.store entry.fields =
    ⟨entry.body, entry.delay, attributeItems (entry.attributes.getD .empty)⟩ := by
  have hfields : entry.fields = ("Id".toList, .text entry.id) :: ("MessageBody".toList, entry.body) ::
      ("DelaySeconds".toList, .number entry.delay) ::
        attributeItems (entry.attributes.getD .empty) := by
    rw [SendEntry.fields]
    cases entry.attributes with
    | none => rfl
    | some attributes => rfl
  rw [hfields, QueueService.store]
  congr 1
  exact filter_attributeItems _

/-- What the queue has of an entry of a batch. -/
theorem writeBatch_eq {entries : List BatchEntry} {i : ℕ} {entry : BatchEntry}
    (hentry : entries[i]? = some entry) : service.writeBatch entries i =
      ⟨.ofBody entry.body, entry.delay, attributeItems (entry.attributes.getD .empty)⟩ := by
  have hcarried := isCarried (.sendMessage (entries.map BatchEntry.tuple))
  have hitems : (sendMessageBatch (entries.map BatchEntry.tuple)).items =
      numberedFrom "SendMessageBatchRequestEntry".toList 0
        ((entries.map BatchEntry.tuple).map SendEntry.fields) := hcarried
  have hfields := @entryFields_numberedFrom "SendMessageBatchRequestEntry".toList 0
    ((entries.map BatchEntry.tuple).map SendEntry.fields) i
  rw [Nat.zero_add, List.getElem?_map, List.getElem?_map, hentry] at hfields
  rw [QueueService.writeBatch, hitems, hfields]
  exact store_fields service entry.tuple

/-- What the queue has of a message that was written singly. -/
theorem write_eq (cls : QueueClass) (entry : BatchEntry) : service.write cls entry =
    (cls.encode entry.body).map fun content =>
      ⟨content, if entry.delay ≠ 0 then entry.delay else service.delay,
        attributeItems (entry.attributes.getD .empty)⟩ := by
  rw [QueueService.write]
  congr 1
  funext content
  rw [items_sendMessage, store_singleFields]

end

/-! ## Reading an answer -/

/-- The methods within the element of a message are those of every class. -/
structure ReadsMessages (m : Nodes MessageRef (List Received)) : Prop where
  start : ∀ ref name messages, ref ≠ .resultSet →
    m.startElement ref name messages = (methods .message).startElement ref name messages
  message : ∀ name value messages, name ≠ "Message".toList →
    m.endElement .message name value messages =
      modifyLast (fun self => .ok (self.endElement name value)) messages
  other : ∀ ref name value messages, ref ≠ .message →
    m.endElement ref name value messages = (methods .message).endElement ref name value messages

theorem readsMessages_methods (cls : QueueClass) : ReadsMessages cls.methods := by
  cases cls with
  | raw =>
      refine ⟨fun _ _ _ _ => rfl, fun _ _ _ _ => rfl, fun ref name value messages href => ?_⟩
      cases ref with
      | message => exact absurd rfl href
      | resultSet | attributes | messageAttributes | attributeValue | user => rfl
  | encoded cls =>
      constructor
      · intro ref name messages href
        cases ref with
        | resultSet => exact absurd rfl href
        | message | attributes | messageAttributes | attributeValue | user => rfl
      · intro name value messages hname
        simp only [QueueClass.methods, methods, if_neg hname]
      · intro ref name value messages href
        cases ref with
        | message => exact absurd rfl href
        | resultSet | attributes | messageAttributes | attributeValue | user => rfl

section

variable {m : Nodes MessageRef (List Received)} {name value : Text}

/-- A node in the element of a message keeps the body and changes the message attributes in a way
that depends on the node alone. -/
def ReadsSame (m : Nodes MessageRef (List Received)) (nodes : List Node) : Prop :=
  ∃ f : MessageAttributes → MessageAttributes, ∀ message : Received, ∃ message' : Received,
    message'.body = message.body ∧ message'.messageAttributes = f message.messageAttributes ∧
      Reads m "Message".toList .message nodes [message] [message']

/-- The message attributes after the element of one of them. -/
def MessageAttributes.readElement (named : Text × Text × Text) (self : MessageAttributes) :
    MessageAttributes :=
  let opened := { self.endElement "Name".toList named.1 with currentValue := some .empty }
  let valued := (opened.endValueElement "StringValue".toList named.2.1).endValueElement
    "DataType".toList named.2.2
  { valued with items := valued.items.set valued.currentKey valued.currentValue }

theorem ReadsSame.append {nodes nodes' : List Node} (hfirst : ReadsSame m nodes)
    (hrest : ReadsSame m nodes') : ReadsSame m (nodes ++ nodes') := by
  obtain ⟨f, hfirst⟩ := hfirst
  obtain ⟨g, hrest⟩ := hrest
  refine ⟨g ∘ f, fun message => ?_⟩
  obtain ⟨between, hbody, hattributes, hread⟩ := hfirst message
  obtain ⟨message', hbody', hattributes', hread'⟩ := hrest between
  refine ⟨message', hbody'.trans hbody, ?_, hread.append hread'⟩
  rw [hattributes', hattributes]
  rfl

theorem readsSame_of_forall {nodes : List Node} (hnodes : ∀ node ∈ nodes, ReadsSame m [node]) :
    ReadsSame m nodes := by
  induction nodes with
  | nil => exact ⟨id, fun message => ⟨message, rfl, rfl, Reads.nil _ _ _ _⟩⟩
  | cons node nodes ih =>
      obtain ⟨hnode, hnodes⟩ := List.forall_mem_cons.mp hnodes
      exact hnode.append (ih hnodes)

variable (hm : ReadsMessages m)
include hm

theorem reads_messageLeaf (hname : name ∉ ownNames) (value : Text) (message : Received) :
    Reads m "Message".toList .message [.leaf name value] [message]
      [message.endElement name value] := by
  simp only [ownNames, List.mem_cons, List.not_mem_nil, or_false, not_or] at hname
  obtain ⟨hmessage, hattribute, hattributes⟩ := hname
  have hstart : m.startElement .message name [message] = (none, [message]) := by
    rw [hm.start _ _ _ (by decide)]
    simp only [methods, if_neg hattribute, if_neg hattributes]
  have hend : m.endElement .message name value [message] = .ok [message.endElement name value] := by
    rw [hm.message _ _ _ hmessage]
    rfl
  exact Reads.leaf (Ne.symm hmessage) hstart hend

theorem readsSame_leaf (hname : name ∉ ownNames) (hbody : name ≠ "Body".toList) (value : Text) :
    ReadsSame m [.leaf name value] := by
  refine ⟨id, fun message => ⟨_, ?_, ?_, reads_messageLeaf hm hname value message⟩⟩
  · rw [Received.endElement, if_neg hbody]
    split_ifs <;> rfl
  · rw [Received.endElement, if_neg hbody]
    split_ifs <;> rfl

theorem readsSame_attributeElement (pair : Text × Text) :
    ReadsSame m [Envelope.attributeElement pair] := by
  refine ⟨id, fun message => ?_⟩
  let named := { message with
    attributes := message.attributes.endElement "Name".toList pair.1 }
  let valued := { named with attributes := named.attributes.endElement "Value".toList pair.2 }
  have hend : ∀ name value (message : Received), m.endElement .attributes name value [message] =
      .ok [{ message with attributes := message.attributes.endElement name value }] :=
    fun name value message => hm.other _ _ _ _ (by decide)
  have hname : Reads m "Attribute".toList .attributes
      [.leaf "Name".toList pair.1] [message] [named] :=
    Reads.leaf (by decide) (hm.start _ _ _ (by decide)) (hend _ _ _)
  have hvalue : Reads m "Attribute".toList .attributes
      [.leaf "Value".toList pair.2] [named] [valued] :=
    Reads.leaf (by decide) (hm.start _ _ _ (by decide)) (hend _ _ _)
  refine ⟨{ valued with attributes := valued.attributes.endElement "Attribute".toList [] },
    rfl, rfl, ?_⟩
  exact Reads.element (hm.start _ _ _ (by decide)) (hname.cons hvalue) fun _ => hend _ _ _

theorem readsSame_messageAttributeElement (named : Text × Text × Text) :
    ReadsSame m [Envelope.messageAttributeElement named] := by
  refine ⟨MessageAttributes.readElement named, fun message => ?_⟩
  have hname : Reads m "MessageAttribute".toList .messageAttributes
      [.leaf "Name".toList named.1] [message]
        [message.modifyAttributes (·.endElement "Name".toList named.1)] :=
    Reads.leaf (by decide) (hm.start _ _ _ (by decide)) (hm.other _ _ _ _ (by decide))
  have hleaf : ∀ name value (message : Received), "Value".toList ≠ name →
      Reads m "Value".toList .attributeValue [.leaf name value] [message]
        [message.modifyAttributes (·.endValueElement name value)] :=
    fun name value message hne =>
      Reads.leaf hne (hm.start _ _ _ (by decide)) (hm.other _ _ _ _ (by decide))
  have hendValue : ∀ text (message : Received),
      m.endElement .attributeValue "Value".toList text [message] = .ok [message] :=
    fun text message =>
      (hm.other _ _ _ _ (by decide)).trans (endElement_attributeValue text message)
  have hend : ∀ text (message : Received),
      m.endElement .messageAttributes "MessageAttribute".toList text [message] =
        .ok [message.modifyAttributes fun self =>
          { self with items := self.items.set self.currentKey self.currentValue }] :=
    fun text message =>
      (hm.other _ _ _ _ (by decide)).trans (endElement_messageAttribute text message)
  generalize hstart : message.modifyAttributes (·.endElement "Name".toList named.1) = start at hname
  have hstring := hleaf "StringValue".toList named.2.1
    (start.modifyAttributes fun self => { self with currentValue := some .empty }) (by decide)
  have htype := fun message => hleaf "DataType".toList named.2.2 message (by decide)
  have hvalue := @Reads.element _ _ m "MessageAttribute".toList .messageAttributes [start]
    _ _ _ _ _ _ (hm.start _ _ _ (by decide)) (hstring.cons (htype _)) (hendValue · _)
  have hclosed := @Reads.element _ _ m "Message".toList .message [message] _ _ _ _ _ _
    (hm.start _ _ _ (by decide)) (hname.cons hvalue) (hend · _)
  refine ⟨_, ?_, ?_, hclosed⟩
  · subst hstart
    rfl
  · subst hstart
    rfl

theorem readsSame_front (envelope : Envelope) : ReadsSame m envelope.front := by
  apply readsSame_of_forall
  rw [Envelope.front]
  simp only [List.forall_mem_cons]
  exact ⟨readsSame_leaf hm (by decide) (by decide) _, readsSame_leaf hm (by decide) (by decide) _,
    readsSame_leaf hm (by decide) (by decide) _, fun _ hnode => nomatch hnode⟩

theorem readsSame_back (envelope : Envelope) : ReadsSame m envelope.back := by
  apply readsSame_of_forall
  simp only [Envelope.back, List.forall_mem_append, List.forall_mem_map]
  exact ⟨fun pair _ => readsSame_attributeElement hm pair,
    fun _ _ => readsSame_leaf hm (by decide) (by decide) _,
    fun named _ => readsSame_messageAttributeElement hm named⟩

omit hm

/-- Reading some nodes raises an error. -/
def Fails (m : Nodes MessageRef (List Received)) (tag : Text) (top : MessageRef) (nodes : List Node)
    (before : List Received) : Prop :=
  ∀ rest text, ∃ e, XmlHandler.run m
    { nodes := (tag, top) :: rest, currentText := text, objects := before }
      (Node.eventsOf nodes) = .error e

section

open XmlHandler

variable {tag : Text} {top new : MessageRef} {before between after : List Received}
  {nodes nodes' : List Node}

theorem Fails.append (hfails : Fails m tag top nodes before) :
    Fails m tag top (nodes ++ nodes') before := by
  intro rest text
  obtain ⟨e, he⟩ := hfails rest text
  refine ⟨e, ?_⟩
  rw [Node.eventsOf_append, run_append, he]
  rfl

theorem Fails.skipped (hstart : m.startElement top name before = (none, before))
    (hfails : Fails m tag top nodes before) : Fails m tag top [.element name nodes] before := by
  intro rest text
  obtain ⟨e, he⟩ := hfails rest []
  refine ⟨e, ?_⟩
  rw [Node.eventsOf_element, run_start_of_none _ hstart, run_append, he]
  rfl

theorem Fails.element (hstart : m.startElement top name before = (some new, between))
    (hread : Reads m name new nodes between after)
    (hend : ∀ text, ∃ e, m.endElement new name text after = .error e) :
    Fails m tag top [.element name nodes] before := by
  intro rest text
  obtain ⟨text', hread⟩ := hread ((tag, top) :: rest) []
  obtain ⟨e, he⟩ := hend text'
  refine ⟨e, ?_⟩
  rw [Node.eventsOf_element, run_start_of_some _ hstart, run_append, hread]
  change run m { nodes := (name, new) :: (tag, top) :: rest, currentText := text'
                 objects := after } [.endElement name] = _
  rw [run_cons, step, XmlHandler.endElement]
  dsimp only
  rw [he]
  rfl

end

/-- The message attributes of a new message. -/
def MessageAttributes.unread : MessageAttributes :=
  { items := .empty, currentKey := none, currentValue := none }

/-- At its end, a message is decoded. -/
theorem end_message (cls : QueueClass) (text : Text) (message : Received) :
    cls.methods.endElement .message "Message".toList text [message] =
      (cls.decode message.body).map fun body => [{ message with body := body }] := by
  cases cls with
  | raw => rfl
  | encoded cls =>
      change (cls.decode message.body |>.map _ |>.map _) = _
      rw [QueueClass.decode]
      cases cls.decode message.body with
      | error e => rfl
      | ok body => rfl

/-- A message is opened for its element. -/
theorem start_message (cls : QueueClass) : ∃ first : Received,
    cls.methods.startElement .resultSet "Message".toList [] = (some .message, [first]) ∧
      first.messageAttributes = .unread := by
  cases cls with
  | raw => exact ⟨_, rfl, rfl⟩
  | encoded cls => exact ⟨_, rfl, rfl⟩

theorem start_other (cls : QueueClass) (hname : name ≠ "Message".toList)
    (howner : name ≠ "Owner".toList) (messages : List Received) :
    cls.methods.startElement .resultSet name messages = (none, messages) := by
  cases cls with
  | raw => simp only [QueueClass.methods, methods, if_neg hname, if_neg howner]
  | encoded cls => simp only [QueueClass.methods, methods, if_neg hname, if_neg howner]

theorem end_resultSet (cls : QueueClass) (name text : Text) (messages : List Received) :
    cls.methods.endElement .resultSet name text messages = .ok messages := by
  cases cls with
  | raw => rfl
  | encoded cls => rfl

/-- What is read of a message: its body as the class decodes it, and message attributes that do not
depend on the body. -/
theorem read_reply_iff (cls : QueueClass) (envelope : Envelope) :
    ∃ attributes, ∀ stored, ∃ message : Received, message.messageAttributes = attributes ∧
      ∀ message', cls.read (envelope.reply stored) = .ok (some message') ↔
        ∃ body, cls.decode (.text stored) = .ok body ∧ message' = { message with body := body } := by
  have hm := readsMessages_methods cls
  obtain ⟨f, hfront⟩ := readsSame_front hm envelope
  obtain ⟨g, hback⟩ := readsSame_back hm envelope
  obtain ⟨first, hstart, hunread⟩ := start_message cls
  refine ⟨g (f .unread), fun stored => ?_⟩
  obtain ⟨named, -, hnamed, hfront⟩ := hfront first
  have hbody := reads_messageLeaf hm (by decide : "Body".toList ∉ ownNames) stored named
  obtain ⟨last, hlast, hattributes, hback⟩ := hback (named.endElement "Body".toList stored)
  have hlast' : last.body = .text stored := hlast
  refine ⟨last, ?_, fun message' => ?_⟩
  · rw [hattributes, ← hunread, ← hnamed]
    rfl
  have hinside := hfront.append (hbody.cons hback)
  have hend := fun text => end_message cls text last
  rw [hlast'] at hend
  cases hdecode : cls.decode (.text stored) with
  | error e =>
      constructor
      · intro hread
        have hfails : Fails cls.methods "root".toList .resultSet [envelope.reply stored] [] :=
          Fails.skipped (start_other cls (by decide) (by decide) [])
            (Fails.append (Fails.skipped (start_other cls (by decide) (by decide) [])
              (Fails.element hstart hinside fun text => ⟨e, by rw [hend, hdecode]; rfl⟩)))
        obtain ⟨e', he⟩ := hfails [] []
        have hevents : Node.eventsOf [envelope.reply stored] = (envelope.reply stored).events := by
          simp [Node.eventsOf]
        rw [hevents] at he
        rw [QueueClass.read, XmlHandler.parse, he] at hread
        cases hread
      · rintro ⟨body, hok, -⟩
        cases hok
  | ok body =>
      have hclosed : ∀ text, cls.methods.endElement .message "Message".toList text [last] =
          .ok [{ last with body := body }] := by
        intro text
        rw [hend, hdecode]
        rfl
      have hmessage : Reads cls.methods "root".toList .resultSet _ [] _ :=
        Reads.element hstart hinside hclosed
      have hid : Reads cls.methods "root".toList .resultSet
          [.leaf "RequestId".toList envelope.requestId] [{ last with body := body }]
          [{ last with body := body }] :=
        Reads.leaf (by decide) (start_other cls (by decide) (by decide) _)
          (end_resultSet cls _ _ _)
      have hresult := Reads.skipped (by decide : "root".toList ≠ "ReceiveMessageResult".toList)
        (start_other cls (by decide) (by decide) []) hmessage fun _ => end_resultSet cls _ _ _
      have hmetadata := Reads.skipped (by decide : "root".toList ≠ "ResponseMetadata".toList)
        (start_other cls (by decide) (by decide) _) hid fun _ => end_resultSet cls _ _ _
      have hparse := Reads.parse (Reads.skipped
        (by decide : "root".toList ≠ "ReceiveMessageResponse".toList)
        (start_other cls (by decide) (by decide) []) (hresult.cons hmetadata)
        fun _ => end_resultSet cls _ _ _)
      have hread : cls.read (envelope.reply stored) = .ok (some { last with body := body }) := by
        rw [QueueClass.read, Envelope.reply, hparse]
        rfl
      rw [hread]
      constructor
      · intro heq
        cases heq
        exact ⟨body, rfl, rfl⟩
      · rintro ⟨body', hok, rfl⟩
        cases hok
        rfl

end

/-! ## Bodies that nothing encoded -/

/-- Text that is decoded is not what it was. -/
theorem ne_of_decodeBase64 {value text : Text} (hvalue : value ≠ [])
    (hdecode : decodeBase64 (.text value) = some text) : text ≠ value := by
  obtain ⟨bytes, hbytes, htext⟩ := Option.bind_eq_some_iff.mp hdecode
  have hutf8 : encodeUtf8 text = bytes := by
    cases hread : Auth.decodeUtf8 bytes with
    | error e =>
        rw [hread] at htext
        cases htext
    | ok text' =>
        rw [hread] at htext
        cases htext
        exact Auth.decodeUtf8_eq_ok hread
  have hlength := length_encodeUtf8_ge text
  have hlt := Base64.length_lt_of_decode hvalue hbytes
  rw [hutf8] at hlength
  rintro rfl
  omega

section

variable {printable : Char → Bool} {quote c : Char}

theorem notMem_hexDigits (b : UInt8) :
    '\x7b' ∉ hexDigits b ∧ ':' ∉ hexDigits b ∧ '\n' ∉ hexDigits b := by
  revert b
  apply PercentEncoding.forall_byte
  decide +kernel

/-- A character that the `repr` of others does not have. -/
theorem notMem_reprChar {special : Char} (hspecial : special ∈ ['\x7b', ':', '\n'])
    (hquote : special ≠ quote) (hne : special ≠ c) : special ∉ reprChar printable quote c := by
  have hdigits : ∀ b, special ∉ hexDigits b := by
    intro b
    obtain ⟨hbrace, hcolon, hnewline⟩ := notMem_hexDigits b
    simp only [List.mem_cons, List.not_mem_nil, or_false] at hspecial
    rcases hspecial with rfl | rfl | rfl
    · exact hbrace
    · exact hcolon
    · exact hnewline
  have hletters : special ∉ ['\\', 'n', 'r', 't', 'x', 'u', 'U'] := by
    simp only [List.mem_cons, List.not_mem_nil, or_false] at hspecial
    rcases hspecial with rfl | rfl | rfl
    all_goals decide
  simp only [List.mem_cons, List.not_mem_nil, or_false, not_or] at hletters
  obtain ⟨hslash, hn, hr, ht, hx, hu, hU⟩ := hletters
  rw [reprChar]
  split_ifs
  all_goals simp only [List.mem_cons, List.mem_append, List.not_mem_nil, or_false, not_or]
  · exact ⟨hslash, hne⟩
  · exact ⟨hslash, hn⟩
  · exact ⟨hslash, hr⟩
  · exact ⟨hslash, ht⟩
  · exact hne
  · exact hne
  · exact ⟨hslash, hx, hdigits _⟩
  · exact ⟨hslash, hu, hdigits _, hdigits _⟩
  · exact ⟨hslash, hU, ⟨⟨hdigits _, hdigits _⟩, hdigits _⟩, hdigits _⟩

/-- Braces and colons are written as they are. -/
theorem reprChar_self (hc : c ∈ ['\x7b', ':']) (hquote : c ≠ quote) :
    reprChar printable quote c = [c] := by
  simp only [List.mem_cons, List.not_mem_nil, or_false] at hc
  rw [reprChar]
  rcases hc with rfl | rfl
  · rw [if_neg (by simp [hquote]), if_neg (by decide), if_neg (by decide), if_neg (by decide),
      if_pos (by decide)]
  · rw [if_neg (by simp [hquote]), if_neg (by decide), if_neg (by decide), if_neg (by decide),
      if_pos (by decide)]

/-- A newline is escaped. -/
theorem newline_notMem_reprChar (hquote : '\n' ≠ quote) :
    '\n' ∉ reprChar printable quote c := by
  by_cases hc : '\n' = c
  · subst hc
    rw [reprChar, if_neg (by simp [hquote]), if_pos rfl]
    decide
  · exact notMem_reprChar (by decide) hquote hc

/-- The braces in front of the first colon are those of the text. -/
theorem count_front_reprText (hbrace : '\x7b' ≠ quote) (hcolon : ':' ≠ quote) (text rest : Text) :
    ((text.flatMap (reprChar printable quote) ++ quote :: ':' :: rest).takeWhile
      (· ≠ ':')).count '\x7b' = (text.takeWhile (· ≠ ':')).count '\x7b' := by
  induction text with
  | nil =>
      rw [List.flatMap_nil, List.nil_append, List.takeWhile_cons_of_pos (by simpa using hcolon.symm),
        List.takeWhile_cons_of_neg (by simp), List.count_singleton, List.takeWhile_nil]
      exact if_neg (by simpa using hbrace.symm)
  | cons c text ih =>
      rw [List.flatMap_cons, List.append_assoc]
      by_cases hc : c = ':'
      · subst hc
        rw [reprChar_self (by decide) hcolon, List.singleton_append,
          List.takeWhile_cons_of_neg (by simp), List.takeWhile_cons_of_neg (by simp)]
      · have hpass : ∀ d ∈ reprChar printable quote c, decide (d ≠ ':') = true := by
          intro d hd
          apply decide_eq_true
          rintro rfl
          exact notMem_reprChar (by decide) hcolon (Ne.symm hc) hd
        have hcount : (reprChar printable quote c).count '\x7b' = [c].count '\x7b' := by
          by_cases hbraced : c = '\x7b'
          · subst hbraced
            rw [reprChar_self (by decide) hbrace]
          · rw [List.count_eq_zero_of_not_mem (notMem_reprChar (by decide) hbrace
              (Ne.symm hbraced)), List.count_eq_zero_of_not_mem (by simpa using Ne.symm hbraced)]
        rw [List.takeWhile_append_of_pos hpass, List.count_append, ih, hcount,
          List.takeWhile_cons_of_pos (by simpa using hc)]
        exact List.count_append.symm

end

/-! ## Headers that are read from a mapping -/

theorem count_dropWhile {p : Char → Bool} {c : Char} (hc : p c = false) (text : Text) :
    (text.dropWhile p).count c = text.count c := by
  induction text with
  | nil => rfl
  | cons d text ih =>
      by_cases hd : p d = true
      · rw [List.dropWhile_cons_of_pos hd, ih, List.count_cons_of_ne]
        rintro rfl
        rw [hc] at hd
        cases hd
      · rw [List.dropWhile_cons_of_neg hd]

theorem count_stripText {c : Char} (hc : isWhitespace c = false) (text : Text) :
    (stripText text).count c = text.count c := by
  rw [stripText, List.count_reverse, count_dropWhile hc, List.count_reverse, count_dropWhile hc]

/-- The name in a line is in front of every colon. -/
theorem exists_front_headerOf (line : Text) : ∃ front, front <+: line ∧ ':' ∉ front ∧
    (headerOf line).1 = stripText front := by
  rw [headerOf]
  cases hfind : line.findIdx? (· = ':') with
  | none =>
      rw [List.findIdx?_eq_none_iff] at hfind
      refine ⟨line.dropLast, List.dropLast_prefix line, fun hmem => ?_, rfl⟩
      have hcolon := hfind ':' (List.dropLast_subset _ hmem)
      revert hcolon
      decide
  | some delim =>
      refine ⟨line.take delim, List.take_prefix _ _, fun hmem => ?_, rfl⟩
      obtain ⟨i, hi, hget⟩ := List.mem_iff_getElem.mp hmem
      obtain ⟨hlt, -, hbefore⟩ := List.findIdx?_eq_some_iff_getElem.mp hfind
      rw [List.length_take] at hi
      have hnot := hbefore i (by omega)
      rw [List.getElem_take] at hget
      rw [hget] at hnot
      revert hnot
      decide

theorem takeWhile_append_colon (front rest : Text) :
    (front ++ ':' :: rest).takeWhile (· ≠ ':') = front.takeWhile (· ≠ ':') := by
  induction front with
  | nil => rfl
  | cons c front ih =>
      rw [List.cons_append]
      by_cases hc : c = ':'
      · rw [List.takeWhile_cons_of_neg (by simpa using hc),
          List.takeWhile_cons_of_neg (by simpa using hc)]
      · rw [List.takeWhile_cons_of_pos (by simpa using hc),
          List.takeWhile_cons_of_pos (by simpa using hc), ih]

/-- The name in a line with a colon. -/
theorem headerOf_fst {line : Text} (hcolon : ':' ∈ line) :
    (headerOf line).1 = stripText (line.takeWhile (· ≠ ':')) := by
  have hfind : line.findIdx? (· = ':') = some (line.findIdx (· = ':')) := by
    rw [List.findIdx?_eq_some_iff_findIdx_eq]
    exact ⟨List.findIdx_lt_length_of_exists ⟨':', hcolon, decide_eq_true rfl⟩, rfl⟩
  have htake : line.take (line.findIdx (· = ':')) = line.takeWhile (· ≠ ':') := by
    rw [List.takeWhile_eq_take_findIdx_not]
    simp
  rw [headerOf, hfind]
  dsimp only
  rw [htake]

/-- What is in front of every colon is in front of the first one. -/
theorem count_le_of_front {front text : Text} (hfront : front <+: text) (hcolon : ':' ∉ front)
    (c : Char) : front.count c ≤ (text.takeWhile (· ≠ ':')).count c := by
  obtain ⟨rest, rfl⟩ := hfront
  have hpass : ∀ d ∈ front, decide (d ≠ ':') = true := by
    intro d hd
    apply decide_eq_true
    rintro rfl
    exact hcolon hd
  rw [List.takeWhile_append_of_pos hpass, List.count_append]
  exact Nat.le_add_right _ _

theorem readlines_of_notMem {text : Text} (hnewline : '\n' ∉ text) (htext : text ≠ []) :
    readlines text = [text] := by
  induction text with
  | nil => exact absurd rfl htext
  | cons c text ih =>
      obtain ⟨hc, hrest⟩ := not_or.mp (mt List.mem_cons.mpr hnewline)
      rw [readlines, if_neg (Ne.symm hc)]
      by_cases hempty : text = []
      · subst hempty
        rfl
      · rw [ih hrest hempty]

theorem readlines_cons_front {text : Text} (htext : text ≠ []) :
    ∃ line lines, readlines text = line :: lines ∧ line <+: text := by
  induction text with
  | nil => exact absurd rfl htext
  | cons c text ih =>
      rw [readlines]
      split
      · exact ⟨_, _, rfl, ⟨text, rfl⟩⟩
      · by_cases hempty : text = []
        · subst hempty
          exact ⟨[c], [], rfl, List.prefix_rfl⟩
        · obtain ⟨line, lines, hlines, hfront⟩ := ih hempty
          rw [hlines]
          exact ⟨c :: line, lines, rfl, (List.prefix_cons_inj c).mpr hfront⟩

/-- The name in a line is read. -/
theorem get?_readHeaders_ne_none {value line : Text} (hline : line ∈ readlines value) :
    (readHeaders value).get? (headerOf line).1 ≠ none := by
  have hfold : ∀ (lines : List Text) (d : OrderedDict Text Text),
      line ∈ lines ∨ d.get? (headerOf line).1 ≠ none →
        (lines.foldl (fun msg line => msg.set (headerOf line).1 (headerOf line).2) d).get?
          (headerOf line).1 ≠ none := by
    intro lines
    induction lines with
    | nil => exact fun d hin => hin.resolve_left List.not_mem_nil
    | cons first lines ih =>
        intro d hin
        apply ih
        rw [OrderedDict.get?_set]
        split
        · exact .inr (Option.some_ne_none _)
        · rename_i hne
          rcases hin with hin | hin
          · rcases List.mem_cons.mp hin with rfl | hin
            · exact absurd rfl hne
            · exact .inl hin
          · exact .inr hin
  exact hfold _ _ (.inl hline)

section

variable {printable : Char → Bool}

/-- The quotes of a text are neither braces nor colons. -/
theorem exists_reprText (printable : Char → Bool) (text : Text) : ∃ quote,
    '\x7b' ≠ quote ∧ ':' ≠ quote ∧ '\n' ≠ quote ∧
      reprText printable text = quote :: (text.flatMap (reprChar printable quote) ++ [quote]) := by
  rw [reprText]
  split_ifs
  · exact ⟨'"', by decide, by decide, by decide, rfl⟩
  · exact ⟨'\'', by decide, by decide, by decide, rfl⟩

theorem newline_notMem_reprText (text : Text) : '\n' ∉ reprText printable text := by
  obtain ⟨quote, -, -, hquote, hrepr⟩ := exists_reprText printable text
  rw [hrepr]
  intro hmem
  rcases List.mem_cons.mp hmem with heq | hmem
  · exact hquote heq
  · rcases List.mem_append.mp hmem with hmem | hmem
    · obtain ⟨c, -, hc⟩ := List.mem_flatMap.mp hmem
      exact newline_notMem_reprChar hquote hc
    · exact hquote (List.mem_singleton.mp hmem)

theorem mem_intersperse {piece between : Text} {pieces : List Text}
    (hpiece : piece ∈ pieces.intersperse between) : piece ∈ pieces ∨ piece = between := by
  induction pieces with
  | nil => cases hpiece
  | cons first pieces ih =>
      cases pieces with
      | nil => exact .inl hpiece
      | cons second pieces =>
          rw [List.intersperse_cons_cons, List.mem_cons, List.mem_cons] at hpiece
          rcases hpiece with rfl | rfl | hpiece
          · exact .inl List.mem_cons_self
          · exact .inr rfl
          · exact (ih hpiece).imp_left (List.mem_cons_of_mem _)

/-- A mapping is printed in one line. -/
theorem newline_notMem_reprHeaders (headers : OrderedDict Text Text) :
    '\n' ∉ reprHeaders printable headers := by
  have hitem : ∀ item : Text × Text, '\n' ∉ reprItem printable item := by
    intro item hmem
    rcases List.mem_append.mp hmem with hmem | hmem
    · exact newline_notMem_reprText _ hmem
    · simp only [List.mem_cons] at hmem
      rcases hmem with heq | heq | hmem
      · revert heq
        decide
      · revert heq
        decide
      · exact newline_notMem_reprText _ hmem
  intro hmem
  rcases List.mem_cons.mp hmem with heq | hmem
  · revert heq
    decide
  rcases List.mem_append.mp hmem with hmem | hmem
  · obtain ⟨piece, hpiece, hin⟩ := List.mem_flatten.mp hmem
    rcases mem_intersperse hpiece with hpiece | rfl
    · obtain ⟨item, -, rfl⟩ := List.mem_map.mp hpiece
      exact hitem item hin
    · revert hin
      decide
  · revert hmem
    decide

/-- A printed mapping begins with its first name. -/
theorem exists_reprHeaders {headers : OrderedDict Text Text} {item : Text × Text}
    {items : List (Text × Text)} (hitems : headers.items = item :: items) :
    ∃ quote rest, '\x7b' ≠ quote ∧ ':' ≠ quote ∧ reprHeaders printable headers =
      '\x7b' :: quote :: (item.1.flatMap (reprChar printable quote) ++ quote :: ':' :: rest) := by
  obtain ⟨quote, hbrace, hcolon, -, hrepr⟩ := exists_reprText printable item.1
  have hpieces : ∃ more, ((headers.items.map (reprItem printable)).intersperse [',', ' ']).flatten =
      reprItem printable item ++ more := by
    rw [hitems, List.map_cons]
    cases items.map (reprItem printable) with
    | nil => exact ⟨[], by rw [List.intersperse_singleton, List.flatten_singleton, List.append_nil]⟩
    | cons next pieces => exact ⟨_, List.flatten_cons⟩
  obtain ⟨more, hmore⟩ := hpieces
  refine ⟨quote, ' ' :: (reprText printable item.2 ++ (more ++ ['\x7d'])), hbrace, hcolon, ?_⟩
  rw [reprHeaders, hmore, reprItem, hrepr]
  simp only [List.append_assoc, List.cons_append, List.nil_append]

/-- The names that are read from the printed mapping and from its lines are different ones. -/
theorem not_forall_get?_reprHeaders (printable : Char → Bool) (headers : OrderedDict Text Text) :
    ¬∀ name, (readHeaders (reprHeaders printable headers)).get? name =
      (readHeaders (headers.items.flatMap headerLine)).get? name := by
  intro hsame
  have hprinted : reprHeaders printable headers ≠ [] := List.cons_ne_nil _ _
  have hlines := readlines_of_notMem (newline_notMem_reprHeaders headers) hprinted
  cases hitems : headers.items with
  | nil =>
      have hname := get?_readHeaders_ne_none (hlines ▸ List.mem_singleton_self _)
      rw [hsame, hitems] at hname
      exact hname rfl
  | cons item items =>
      obtain ⟨quote, rest, hbrace, hcolon, hrepr⟩ :=
        @exists_reprHeaders printable headers item items hitems
      have htext : headers.items.flatMap headerLine =
          item.1 ++ ':' :: (' ' :: (item.2 ++ ['\n']) ++ items.flatMap headerLine) := by
        rw [hitems, List.flatMap_cons, headerLine, List.append_assoc, List.cons_append]
      have hne : headers.items.flatMap headerLine ≠ [] := by
        rw [htext]
        exact List.append_ne_nil_of_right_ne_nil _ (List.cons_ne_nil _ _)
      -- The first line makes a name with at most as many braces as the first name has.
      obtain ⟨line, lines, hread, hfront⟩ := readlines_cons_front hne
      obtain ⟨front, hline, hnot, hname⟩ := exists_front_headerOf line
      have hcount := count_le_of_front (hline.trans hfront) hnot '\x7b'
      rw [htext, takeWhile_append_colon] at hcount
      have hget := get?_readHeaders_ne_none (hread ▸ List.mem_cons_self)
      -- The printed mapping makes one name, which has a brace more.
      rw [← hsame, readHeaders, hlines, List.foldl_cons, List.foldl_nil, OrderedDict.get?_set] at hget
      have hnames : (headerOf line).1 = (headerOf (reprHeaders printable headers)).1 := by
        by_contra hdifferent
        rw [if_neg hdifferent] at hget
        exact hget rfl
      have hprintedName : (headerOf (reprHeaders printable headers)).1 =
          stripText ((reprHeaders printable headers).takeWhile (· ≠ ':')) := by
        apply headerOf_fst
        rw [hrepr]
        exact List.mem_cons_of_mem _ (List.mem_cons_of_mem _ (List.mem_append_right _
          (List.mem_cons_of_mem _ List.mem_cons_self)))
      have hbraces := congrArg (List.count '\x7b') hnames
      rw [hname, hprintedName, count_stripText (by decide), count_stripText (by decide), hrepr,
        List.takeWhile_cons_of_pos (by decide), List.takeWhile_cons_of_pos
          (by simpa using hcolon.symm), List.count_cons_self, List.count_cons_of_ne hbrace.symm,
        count_front_reprText hbrace hcolon] at hbraces
      omega

end

/-! ## Agreement -/

section

variable {service : QueueService} {printable : Char → Bool} {cls : QueueClass}

/-- Whether a message agrees depends on what its class makes of the body that was sent. -/
theorem agrees_iff_decode {entries : List BatchEntry} {i : ℕ} {entry : BatchEntry}
    (hentry : entries[i]? = some entry) :
    Agrees service printable cls entry (service.writeBatch entries i) ↔
      (∃ content text text' body body', cls.encode entry.body = .ok content ∧
        sentBody printable content = some text ∧ cls.decode (.text text) = .ok body ∧
        sentBody printable (.ofBody entry.body) = some text' ∧
        cls.decode (.text text') = .ok body' ∧ SameContent body body') ∧
      (entry.delay = 0 → service.delay = 0) := by
  have hdelay : (if entry.delay ≠ 0 then entry.delay else service.delay) = entry.delay ↔
      (entry.delay = 0 → service.delay = 0) := by
    split
    · rename_i hne
      exact iff_of_true rfl fun heq => absurd heq hne
    · rename_i heq
      rw [not_not] at heq
      rw [heq]
      exact ⟨fun hzero _ => hzero, fun hzero => hzero rfl⟩
  obtain ⟨attributes, hreads⟩ := read_reply_iff cls
    (service.describe (attributeItems (entry.attributes.getD .empty)))
  rw [Agrees, writeBatch_eq service hentry, write_eq]
  constructor
  · rintro ⟨single, message, message', hsingle, ⟨text, htext, hread⟩, ⟨text', htext', hread'⟩,
      hsame, hdelays, -⟩
    obtain ⟨content, hcontent, rfl⟩ : ∃ content, cls.encode entry.body = .ok content ∧
        (⟨content, if entry.delay ≠ 0 then entry.delay else service.delay,
          attributeItems (entry.attributes.getD .empty)⟩ : Stored) = single := by
      cases hencode : cls.encode entry.body with
      | error e =>
          rw [hencode] at hsingle
          cases hsingle
      | ok content =>
          rw [hencode] at hsingle
          exact ⟨content, rfl, Except.ok.inj hsingle⟩
    obtain ⟨first, -, hfirst⟩ := hreads text
    obtain ⟨second, -, hsecond⟩ := hreads text'
    obtain ⟨body, hbody, rfl⟩ := (hfirst message).mp hread
    obtain ⟨body', hbody', rfl⟩ := (hsecond message').mp hread'
    exact ⟨⟨content, text, text', body, body', hcontent, htext, hbody, htext', hbody', hsame⟩,
      hdelay.mp hdelays⟩
  · rintro ⟨⟨content, text, text', body, body', hcontent, htext, hbody, htext', hbody', hsame⟩,
      hzero⟩
    obtain ⟨first, hattributes, hfirst⟩ := hreads text
    obtain ⟨second, hattributes', hsecond⟩ := hreads text'
    rw [hcontent]
    exact ⟨_, _, _, rfl, ⟨text, htext, (hfirst _).mpr ⟨body, hbody, rfl⟩⟩,
      ⟨text', htext', (hsecond _).mpr ⟨body', hbody', rfl⟩⟩, hsame, hdelay.mpr hzero,
      hattributes.trans hattributes'.symm⟩

/-- A body that a class holds comes back the same just if it is kept without encoding. -/
theorem decode_sent_iff {body : Body} (hholds : cls.Holds body) :
    (∃ content text text' decoded decoded', cls.encode body = .ok content ∧
      sentBody printable content = some text ∧ cls.decode (.text text) = .ok decoded ∧
      sentBody printable (.ofBody body) = some text' ∧
      cls.decode (.text text') = .ok decoded' ∧ SameContent decoded decoded') ↔
      IsKept printable cls body := by
  match cls, body, hholds with
  | .raw, .text value, _ =>
      exact iff_of_true ⟨_, _, _, _, _, rfl, rfl, rfl, rfl, rfl, rfl⟩ trivial
  | .encoded .message, .text value, _ =>
      have hsingle : QueueClass.decode (.encoded .message)
          (.text (Base64.encode (encodeUtf8 value))) = .ok (.text value) := by
        rw [QueueClass.decode, MessageClass.decode, decodeBase64_encode_text]
      constructor
      · rintro ⟨_, _, _, decoded, decoded', hcontent, htext, hdecoded, htext', hdecoded', hsame⟩
        cases hcontent
        cases htext
        cases htext'
        cases hsingle.symm.trans hdecoded
        rw [QueueClass.decode, MessageClass.decode] at hdecoded'
        cases hbase : decodeBase64 (.text value) with
        | none => exact .inr hbase
        | some text =>
            rw [hbase] at hdecoded'
            cases hdecoded'
            by_cases hvalue : value = []
            · exact .inl hvalue
            · exact absurd hsame (ne_of_decodeBase64 hvalue hbase)
      · intro hkept
        have hbatch : QueueClass.decode (.encoded .message) (.text value) = .ok (.text value) := by
          rw [QueueClass.decode, MessageClass.decode]
          rcases hkept with rfl | hnone
          · rfl
          · rw [hnone]
        exact ⟨_, _, _, _, _, rfl, rfl, hsingle, rfl, hbatch, rfl⟩
  | .encoded .mhMessage, .headers headers, _ =>
      refine iff_of_false ?_ id
      rintro ⟨_, _, _, decoded, decoded', hcontent, htext, hdecoded, htext', hdecoded', hsame⟩
      cases hcontent
      cases htext
      cases htext'
      cases hdecoded
      cases hdecoded'
      exact not_forall_get?_reprHeaders printable headers hsame
  | .encoded .encodedMhMessage, .headers headers, _ =>
      have hsingle : QueueClass.decode (.encoded .encodedMhMessage)
          (.text (Base64.encode (encodeUtf8 (headers.items.flatMap headerLine)))) =
            .ok (.headers (readHeaders (headers.items.flatMap headerLine))) := by
        rw [QueueClass.decode, MessageClass.decode, decodeBase64_encode_text]
        rfl
      constructor
      · rintro ⟨_, _, _, decoded, decoded', hcontent, htext, hdecoded, htext', hdecoded', hsame⟩
        cases hcontent
        cases htext
        cases htext'
        cases hsingle.symm.trans hdecoded
        rw [QueueClass.decode, MessageClass.decode] at hdecoded'
        cases hbase : decodeBase64 (.text (reprHeaders printable headers)) with
        | none =>
            rw [hbase] at hdecoded'
            cases hdecoded'
        | some text =>
            rw [hbase] at hdecoded'
            cases hdecoded'
            exact ⟨text, hbase, hsame⟩
      · rintro ⟨text, htext, hsame⟩
        have hbatch : QueueClass.decode (.encoded .encodedMhMessage)
            (.text (reprHeaders printable headers)) = .ok (.headers (readHeaders text)) := by
          rw [QueueClass.decode, MessageClass.decode, htext]
          rfl
        exact ⟨_, _, _, _, _, rfl, rfl, hsingle, rfl, hbatch, hsame⟩

/-- Messages agree just if their bodies are kept without encoding and no delay of 0 stands for
another one. -/
theorem forall_agrees_iff (service : QueueService) (printable : Char → Bool) (cls : QueueClass)
    (entries : List BatchEntry) (hholds : ∀ entry ∈ entries, cls.Holds entry.body) :
    (∀ i entry, entries[i]? = some entry →
      Agrees service printable cls entry (service.writeBatch entries i)) ↔
      ∀ entry ∈ entries, IsKept printable cls entry.body ∧
        (entry.delay = 0 → service.delay = 0) := by
  have hone : ∀ i entry, entries[i]? = some entry →
      (Agrees service printable cls entry (service.writeBatch entries i) ↔
        IsKept printable cls entry.body ∧ (entry.delay = 0 → service.delay = 0)) := by
    intro i entry hentry
    rw [agrees_iff_decode hentry, decode_sent_iff (hholds entry (List.mem_of_getElem? hentry))]
  constructor
  · intro hagrees entry hmem
    obtain ⟨i, hentry⟩ := List.mem_iff_getElem?.mp hmem
    exact (hone i entry hentry).mp (hagrees i entry hentry)
  · intro hkept i entry hentry
    exact (hone i entry hentry).mpr (hkept entry (List.mem_of_getElem? hentry))

end

/-- A queue without a delay, whose answers say nothing besides the bodies. -/
def plainService : QueueService :=
  ⟨0, fun _ => plainEnvelope⟩

/-- A text that is no base64, and one without characters. -/
def keptEntries : List BatchEntry :=
  [⟨"1".toList, .text "a".toList, 0, none⟩, ⟨"2".toList, .text [], 5, none⟩]

theorem agrees_keptEntries :
    Agrees plainService (fun _ => false) (.encoded .message)
        ⟨"1".toList, .text "a".toList, 0, none⟩ (plainService.writeBatch keptEntries 0) ∧
      Agrees plainService (fun _ => false) (.encoded .message)
        ⟨"2".toList, .text [], 5, none⟩ (plainService.writeBatch keptEntries 1) := by
  have hholds : ∀ entry ∈ keptEntries, (QueueClass.encoded .message).Holds entry.body :=
    List.forall_mem_cons.mpr ⟨trivial, List.forall_mem_singleton.mpr trivial⟩
  have hkept : ∀ entry ∈ keptEntries, IsKept (fun _ => false) (.encoded .message) entry.body ∧
      (entry.delay = 0 → plainService.delay = 0) :=
    List.forall_mem_cons.mpr ⟨⟨.inr (by decide), fun _ => rfl⟩,
      List.forall_mem_singleton.mpr ⟨.inl rfl, fun _ => rfl⟩⟩
  have hagrees := (forall_agrees_iff plainService (fun _ => false) (.encoded .message) keptEntries
    hholds).mpr hkept
  exact ⟨hagrees 0 _ rfl, hagrees 1 _ rfl⟩

/-- A text that happens to be base64. -/
theorem not_forall_agrees : ¬∀ (service : QueueService) (printable : Char → Bool)
    (cls : QueueClass) (entries : List BatchEntry),
    (∀ entry ∈ entries, cls.Holds entry.body) → ∀ i entry, entries[i]? = some entry →
      Agrees service printable cls entry (service.writeBatch entries i) := by
  intro hall
  have hagrees := hall plainService (fun _ => false) (.encoded .message)
    [⟨"1".toList, .text "aGk=".toList, 0, none⟩] (List.forall_mem_singleton.mpr trivial) 0 _ rfl
  have hdecode : decodeBase64 (.text "aGk=".toList) = some "hi".toList :=
    decodeBase64_encode_text "hi".toList
  have hholds : (QueueClass.encoded .message).Holds (.text "aGk=".toList) := trivial
  rw [agrees_iff_decode rfl] at hagrees
  rcases (decode_sent_iff hholds).mp hagrees.1 with hempty | hnone
  · cases hempty
  · cases hdecode.symm.trans hnone

end Boto.SQS
