import Boto.NumberedParams
import Boto.SQS.Message

/-!
# Batches of requests

The batch requests of `SQSConnection` and `BatchResults`, into which their answers are read.  One
class reads the answers to three operations and finds the entries by the ends of their names.
-/

namespace Boto.SQS

open Xml (Event Node)

/-! ## Requests -/

/-- The value of a parameter. -/
inductive Value
  | text (value : Text)
  | number (value : ℤ)
  | bytes (value : Bytes)
  | headers (value : OrderedDict Text Text)
  | list (values : List Value)
  | null

/-- The parameters of a request. -/
abbrev Params := OrderedDict Text Value

/-- A text, or `None`. -/
def Value.ofOption : Option Text → Value
  | some value => .text value
  | none => .null

/-- The attributes of a message that is sent, by their names. -/
abbrev SentAttributes := OrderedDict Text (OrderedDict Text Value)

/-- The attributes in the order of `sorted(message_attributes.keys())`. -/
def sortedAttributes (attributes : SentAttributes) : List (Text × OrderedDict Text Value) :=
  (sorted attributes.keys).filterMap fun name =>
    (attributes.get? name).map fun fields => (name, fields)

/-- The parameters of an attribute: its name, and what it has of the keys. -/
def attributeFields (named : Text × OrderedDict Text Value) : List (Text × Value) :=
  ("Name".toList, .text named.1) :: valueKeys.filterMap fun key =>
    (named.2.get? key.2).map fun value => ("Value.".toList ++ key.1, value)

/-- The loop over the attributes of a message. -/
def setAttributes (base : Text) (attributes : SentAttributes) (params : Params) : Params :=
  (sortedAttributes attributes).zipIdx.foldl (fun params item =>
    setAll params (recordItems base item.2 (attributeFields item.1))) params

/-- An entry of `send_message_batch`: a tuple of three or four. -/
structure SendEntry where
  id : Text
  body : Value
  delay : ℤ
  attributes : Option SentAttributes

/-- `send_message_batch`. -/
def sendMessageBatch (messages : List SendEntry) : Params :=
  messages.zipIdx.foldl (fun params item =>
    let name := numbered "SendMessageBatchRequestEntry".toList item.2
    let params := ((params.set (name "Id".toList) (.text item.1.id)).set
      (name "MessageBody".toList) item.1.body).set
      (name "DelaySeconds".toList) (.number item.1.delay)
    match item.1.attributes with
    | none => params
    | some attributes => setAttributes (name "MessageAttribute".toList) attributes params) .empty

/-- What the other operations use of a message. -/
structure MessageHandle where
  id : Option Text
  receiptHandle : Option Text

/-- `delete_message_batch`. -/
def deleteMessageBatch (messages : List MessageHandle) : Params :=
  messages.zipIdx.foldl (fun params item =>
    let name := numbered "DeleteMessageBatchRequestEntry".toList item.2
    (params.set (name "Id".toList) (.ofOption item.1.id)).set
      (name "ReceiptHandle".toList) (.ofOption item.1.receiptHandle)) .empty

/-- `change_message_visibility_batch`. -/
def changeMessageVisibilityBatch (messages : List (MessageHandle × ℤ)) : Params :=
  messages.zipIdx.foldl (fun params item =>
    let name := numbered "ChangeMessageVisibilityBatchRequestEntry".toList item.2
    ((params.set (name "Id".toList) (.ofOption item.1.1.id)).set
      (name "ReceiptHandle".toList) (.ofOption item.1.1.receiptHandle)).set
      (name "VisibilityTimeout".toList) (.number item.1.2)) .empty

/-! ## Results -/

/-- `ResultEntry`. -/
abbrev ResultEntry := OrderedDict Text Text

/-- The keys of a result entry for its elements. -/
def entryKeys : List (Text × Text) :=
  [("Id".toList, "id".toList), ("MessageId".toList, "message_id".toList),
    ("MD5OfMessageBody".toList, "message_md5".toList),
    ("SenderFault".toList, "sender_fault".toList), ("Code".toList, "error_code".toList),
    ("Message".toList, "error_message".toList)]

/-- `ResultEntry.endElement`. -/
def endEntryElement (name value : Text) (self : ResultEntry) : ResultEntry :=
  match entryKeys.lookup name with
  | some key => self.set key value
  | none => self

/-- `BatchResults`, with the attributes that elements of other names set. -/
structure BatchResults where
  results : List ResultEntry
  errors : List ResultEntry
  attributes : OrderedDict Text Text

/-- `BatchResults(parent)`. -/
def BatchResults.init : BatchResults :=
  ⟨[], [], .empty⟩

/-- The objects that are referred to while results are read: the container, and the entry that
was added last to one of its lists. -/
inductive BatchRef
  | batchResults
  | result
  | error

/-- Changes the entry that was added last. -/
def modifyLastEntry (f : ResultEntry → ResultEntry) (entries : List ResultEntry) :
    List ResultEntry :=
  match entries.getLast? with
  | none => entries
  | some entry => entries.dropLast ++ [f entry]

/-- `name.endswith('MessageBatchResultEntry')`. -/
def isResultEntry (name : Text) : Bool :=
  "MessageBatchResultEntry".toList.isSuffixOf name

/-- The methods of batch results and their entries. -/
def batchMethods : Nodes BatchRef BatchResults where
  startElement
    | .batchResults, name, self =>
        if isResultEntry name = true then
          (some .result, { self with results := self.results ++ [.empty] })
        else if name = "BatchResultErrorEntry".toList then
          (some .error, { self with errors := self.errors ++ [.empty] })
        else (none, self)
    | .result, _, self => (none, self)
    | .error, _, self => (none, self)
  endElement
    | .batchResults, name, value, self =>
        .ok { self with attributes := self.attributes.set name value }
    | .result, name, value, self =>
        .ok { self with results := modifyLastEntry (endEntryElement name value) self.results }
    | .error, name, value, self =>
        .ok { self with errors := modifyLastEntry (endEntryElement name value) self.errors }

/-- What `get_object` reads from an answer. -/
def readResults (answer : Node) : Except PyError BatchResults :=
  XmlHandler.parse batchMethods .batchResults .init answer.events

/-! ## The service -/

/-- The operations. -/
inductive BatchOperation
  | sendMessage
  | deleteMessage
  | changeMessageVisibility
  deriving DecidableEq

/-- The name of an operation. -/
def BatchOperation.name : BatchOperation → Text
  | .sendMessage => "SendMessageBatch".toList
  | .deleteMessage => "DeleteMessageBatch".toList
  | .changeMessageVisibility => "ChangeMessageVisibilityBatch".toList

/-- The fields in the element of an entry, none of them named like an entry. -/
structure EntryFields where
  fields : OrderedDict Text Text
  plain : ∀ name ∈ fields.keys, "Entry".toList.isSuffixOf name = false ∧ name ≠ "root".toList

/-- What became of an entry. -/
inductive Outcome
  | succeeded (fields : EntryFields)
  | failed (fields : EntryFields)

/-- The fields of an entry that succeeded. -/
def Outcome.succeeded? : Outcome → Option EntryFields
  | .succeeded fields => some fields
  | .failed _ => none

/-- The fields of an entry that failed. -/
def Outcome.failed? : Outcome → Option EntryFields
  | .succeeded _ => none
  | .failed fields => some fields

/-- The elements of fields. -/
def EntryFields.nodes (self : EntryFields) : List Node :=
  self.fields.items.map fun field => .leaf field.1 field.2

/-- The element of an outcome. -/
def Outcome.element (operation : BatchOperation) : Outcome → Node
  | .succeeded fields => .element (operation.name ++ "ResultEntry".toList) fields.nodes
  | .failed fields => .element "BatchResultErrorEntry".toList fields.nodes

/-- The answer to a batch. -/
def answer (operation : BatchOperation) (outcomes : List Outcome) (requestId : Text) : Node :=
  .element (operation.name ++ "Response".toList)
    [.element (operation.name ++ "Result".toList) (outcomes.map (Outcome.element operation)),
      .element "ResponseMetadata".toList [.leaf "RequestId".toList requestId]]

/-! ## Accounting -/

/-- A call of an operation. -/
inductive BatchCall
  | sendMessage (messages : List SendEntry)
  | deleteMessage (messages : List MessageHandle)
  | changeMessageVisibility (messages : List (MessageHandle × ℤ))

namespace BatchCall

/-- The operation that is called. -/
def operation : BatchCall → BatchOperation
  | sendMessage _ => .sendMessage
  | deleteMessage _ => .deleteMessage
  | changeMessageVisibility _ => .changeMessageVisibility

/-- The parameters of the request. -/
def params : BatchCall → Params
  | sendMessage messages => sendMessageBatch messages
  | deleteMessage messages => deleteMessageBatch messages
  | changeMessageVisibility messages => changeMessageVisibilityBatch messages

end BatchCall

/-- What a request has to say of a message. -/
def SendEntry.fields (self : SendEntry) : List (Text × Value) :=
  [("Id".toList, .text self.id), ("MessageBody".toList, self.body),
    ("DelaySeconds".toList, .number self.delay)] ++
      match self.attributes with
      | none => []
      | some attributes =>
          numberedItems "MessageAttribute".toList
            ((sortedAttributes attributes).map attributeFields)

/-- What a request has to say of a message to be found again. -/
def MessageHandle.fields (self : MessageHandle) : List (Text × Value) :=
  [("Id".toList, .ofOption self.id), ("ReceiptHandle".toList, .ofOption self.receiptHandle)]

/-- What a request has to say of its entries. -/
def BatchCall.records : BatchCall → List (List (Text × Value))
  | sendMessage messages => messages.map SendEntry.fields
  | deleteMessage messages => messages.map MessageHandle.fields
  | changeMessageVisibility messages =>
      messages.map fun item => item.1.fields ++ [("VisibilityTimeout".toList, .number item.2)]

/-- The request carries each entry once, under consecutive indices, and nothing else. -/
def IsCarried (call : BatchCall) : Prop :=
  call.params.items =
    numberedItems (call.operation.name ++ "RequestEntry".toList) call.records

/-- An entry has the fields of an outcome, and nothing else. -/
structure HoldsFields (entry : ResultEntry) (fields : EntryFields) : Prop where
  has : ∀ key ∈ entryKeys, entry.get? key.2 = fields.fields.get? key.1
  only : ∀ name, name ∉ entryKeys.map Prod.snd → entry.get? name = none

/-- The results and the errors that are read are the outcomes of the service. -/
def IsAccounted (operation : BatchOperation) (outcomes : List Outcome) (requestId : Text) : Prop :=
  ∃ results, readResults (answer operation outcomes requestId) = .ok results ∧
    List.Forall₂ HoldsFields results.results (outcomes.filterMap Outcome.succeeded?) ∧
    List.Forall₂ HoldsFields results.errors (outcomes.filterMap Outcome.failed?)

/-! ## What requests carry -/

theorem numbered_numbered (base name field : Text) (i j : ℕ) :
    numbered (numbered base i name) j field = numbered base i (numbered name j field) := by
  simp only [numbered, List.append_assoc, List.cons_append]

theorem recordItems_append {ν : Type} (base : Text) (i : ℕ) (fields fields' : List (Text × ν)) :
    recordItems base i (fields ++ fields') =
      recordItems base i fields ++ recordItems base i fields' :=
  List.map_append

theorem recordItems_numbered {ν : Type} (base name : Text) (i j : ℕ) (fields : List (Text × ν)) :
    recordItems (numbered base i name) j fields =
      recordItems base i (recordItems name j fields) := by
  rw [recordItems, recordItems, recordItems, List.map_map]
  exact List.map_congr_left fun field _ => by rw [numbered_numbered]; rfl

theorem numberedFrom_numbered {ν : Type} (base name : Text) (i j : ℕ)
    (records : List (List (Text × ν))) :
    numberedFrom (numbered base i name) j records =
      recordItems base i (numberedFrom name j records) := by
  induction records generalizing j with
  | nil => rfl
  | cons fields records ih =>
      rw [numberedFrom, numberedFrom, ih, recordItems_numbered, recordItems_append]

theorem setAttributes_eq (base : Text) (attributes : SentAttributes) (params : Params) :
    setAttributes base attributes params = setAll params
      (numberedItems base ((sortedAttributes attributes).map attributeFields)) :=
  foldl_setAll_numbered base attributeFields _ 0 params

theorem sendMessageBatch_eq (messages : List SendEntry) :
    sendMessageBatch messages = setAll .empty
      (numberedItems "SendMessageBatchRequestEntry".toList (messages.map SendEntry.fields)) := by
  rw [numberedItems, ← foldl_setAll_numbered, sendMessageBatch]
  congr 1
  funext params item
  rw [SendEntry.fields]
  cases item.1.attributes with
  | none => rfl
  | some attributes =>
      dsimp only
      rw [setAttributes_eq, numberedItems, numberedFrom_numbered, ← numberedItems,
        recordItems_append, setAll_append]
      rfl

theorem nodup_attributeFields (named : Text × OrderedDict Text Value) :
    ((attributeFields named).map Prod.fst).Nodup := by
  have hsub : ∀ keys : List (Text × Text), ((keys.filterMap fun key =>
      (named.2.get? key.2).map fun value => ("Value.".toList ++ key.1, value)).map
        Prod.fst).Sublist (keys.map fun key => "Value.".toList ++ key.1) := by
    intro keys
    induction keys with
    | nil => exact .slnil
    | cons key keys ih =>
        rw [List.filterMap_cons]
        cases named.2.get? key.2 with
        | none => exact ih.cons _
        | some value => exact ih.cons_cons _
  have hnodup : ("Name".toList :: valueKeys.map fun key => "Value.".toList ++ key.1).Nodup := by
    decide
  exact hnodup.sublist ((hsub valueKeys).cons_cons _)

theorem nodup_fields (entry : SendEntry) : (entry.fields.map Prod.fst).Nodup := by
  rw [SendEntry.fields]
  cases entry.attributes with
  | none => exact (by decide : ["Id".toList, "MessageBody".toList, "DelaySeconds".toList].Nodup)
  | some attributes =>
      have hnodup := nodup_numberedItems "MessageAttribute".toList
        (List.forall_mem_map.mpr fun named (_ : named ∈ sortedAttributes attributes) =>
          nodup_attributeFields named)
      rw [List.map_append, List.nodup_append]
      refine ⟨(by decide : ["Id".toList, "MessageBody".toList, "DelaySeconds".toList].Nodup),
        hnodup, ?_⟩
      rintro name hname _ hname' rfl
      obtain ⟨item, hitem, rfl⟩ := List.mem_map.mp hname'
      obtain ⟨j, fields, -, field, -, rfl⟩ := mem_numberedFrom.mp hitem
      have htake : (numbered "MessageAttribute".toList (0 + j) field.1).take 9 =
          "MessageAt".toList := rfl
      have htaken := @List.mem_map_of_mem _ _ _ _ (List.take 9) hname
      rw [htake] at htaken
      revert htaken
      exact (by decide : "MessageAt".toList ∉ ["Id".toList, "MessageBo".toList, "DelaySeco".toList])

theorem isCarried (call : BatchCall) : IsCarried call := by
  rw [IsCarried]
  cases call with
  | sendMessage messages =>
      rw [BatchCall.params, sendMessageBatch_eq]
      apply items_setAll
      apply nodup_numberedItems
      exact List.forall_mem_map.mpr fun entry _ => nodup_fields entry
  | deleteMessage messages =>
      have heq : deleteMessageBatch messages = setAll .empty
          (numberedItems "DeleteMessageBatchRequestEntry".toList
            (messages.map MessageHandle.fields)) := by
        rw [numberedItems, ← foldl_setAll_numbered]
        rfl
      rw [BatchCall.params, heq]
      apply items_setAll
      apply nodup_numberedItems
      exact List.forall_mem_map.mpr fun message _ =>
        (by decide : ["Id".toList, "ReceiptHandle".toList].Nodup)
  | changeMessageVisibility messages =>
      have heq : changeMessageVisibilityBatch messages = setAll .empty
          (numberedItems "ChangeMessageVisibilityBatchRequestEntry".toList
            (messages.map fun item =>
              item.1.fields ++ [("VisibilityTimeout".toList, .number item.2)])) := by
        rw [numberedItems, ← foldl_setAll_numbered]
        rfl
      rw [BatchCall.params, heq]
      apply items_setAll
      apply nodup_numberedItems
      exact List.forall_mem_map.mpr fun item _ =>
        (by decide : ["Id".toList, "ReceiptHandle".toList, "VisibilityTimeout".toList].Nodup)

/-! ## The lists that are read -/

section

open XmlHandler

variable {ρ σ σ' : Type}

/-- The methods on objects are those on what is seen of them. -/
structure Respects (methods : Nodes ρ σ) (methods' : Nodes ρ σ') (view : σ → σ') : Prop where
  start : ∀ ref name objects, methods'.startElement ref name (view objects) =
    (methods.startElement ref name objects).map id view
  stop : ∀ ref name value objects, methods'.endElement ref name value (view objects) =
    (methods.endElement ref name value objects).map view

variable {methods : Nodes ρ σ} {methods' : Nodes ρ σ'} {view : σ → σ'}

/-- A handler with what is seen of its objects. -/
def viewed (view : σ → σ') (self : XmlHandler ρ σ) : XmlHandler ρ σ' :=
  ⟨self.nodes, self.currentText, view self.objects⟩

theorem step_viewed (hrespects : Respects methods methods' view) (self : XmlHandler ρ σ)
    (event : Event) :
    step methods' (viewed view self) event = (step methods self event).map (viewed view) := by
  obtain ⟨nodes, text, objects⟩ := self
  cases event with
  | characters c => rfl
  | startElement name =>
      cases nodes with
      | nil => rfl
      | cons top rest =>
          rw [step, step, startElement, startElement]
          dsimp only [viewed]
          rw [hrespects.start]
          cases methods.startElement top.2 name objects with
          | mk new objects =>
              cases new with
              | none => rfl
              | some new => rfl
  | endElement name =>
      cases nodes with
      | nil => rfl
      | cons top rest =>
          rw [step, step, endElement, endElement]
          dsimp only [viewed]
          rw [hrespects.stop]
          cases methods.endElement top.2 name text objects with
          | error e => rfl
          | ok objects => rfl

theorem run_viewed (hrespects : Respects methods methods' view) (self : XmlHandler ρ σ)
    (events : List Event) :
    run methods' (viewed view self) events = (run methods self events).map (viewed view) := by
  induction events generalizing self with
  | nil => rfl
  | cons event events ih =>
      rw [run_cons, run_cons, step_viewed hrespects]
      cases step methods self event with
      | error e => rfl
      | ok self => exact ih self

/-- What is seen of a document does not depend on what is not seen. -/
theorem parse_viewed (hrespects : Respects methods methods' view) (root : ρ) (objects : σ)
    (events : List Event) :
    XmlHandler.parse methods' root (view objects) events =
      (XmlHandler.parse methods root objects events).map view := by
  have hrun := run_viewed hrespects
    { nodes := [("root".toList, root)], currentText := [], objects := objects } events
  rw [viewed] at hrun
  rw [XmlHandler.parse, XmlHandler.parse, hrun]
  cases run methods { nodes := [("root".toList, root)], currentText := [], objects := objects }
    events with
  | error e => rfl
  | ok self => rfl

end

/-- The two lists of batch results. -/
abbrev EntryLists := List ResultEntry × List ResultEntry

/-- The methods of the two lists. -/
def listMethods : Nodes BatchRef EntryLists where
  startElement
    | .batchResults, name, self =>
        if isResultEntry name = true then (some .result, (self.1 ++ [.empty], self.2))
        else if name = "BatchResultErrorEntry".toList then
          (some .error, (self.1, self.2 ++ [.empty]))
        else (none, self)
    | .result, _, self => (none, self)
    | .error, _, self => (none, self)
  endElement
    | .batchResults, _, _, self => .ok self
    | .result, name, value, self =>
        .ok (modifyLastEntry (endEntryElement name value) self.1, self.2)
    | .error, name, value, self =>
        .ok (self.1, modifyLastEntry (endEntryElement name value) self.2)

/-- The lists of batch results. -/
def BatchResults.lists (self : BatchResults) : EntryLists :=
  (self.results, self.errors)

theorem respects_lists : Respects batchMethods listMethods BatchResults.lists where
  start ref name self := by
    cases ref with
    | batchResults =>
        dsimp only [batchMethods, listMethods]
        split_ifs <;> rfl
    | result => rfl
    | error => rfl
  stop ref name value self := by
    cases ref with
    | batchResults => rfl
    | result => rfl
    | error => rfl

section

variable {operation : BatchOperation} {fields : EntryFields} {name : Text}

/-- The entry that is made from fields. -/
def EntryFields.entry (self : EntryFields) : ResultEntry :=
  self.fields.items.foldl (fun entry field => endEntryElement field.1 field.2 entry) .empty

theorem modifyLastEntry_append (f : ResultEntry → ResultEntry) (entries : List ResultEntry)
    (entry : ResultEntry) : modifyLastEntry f (entries ++ [entry]) = entries ++ [f entry] := by
  rw [modifyLastEntry, List.getLast?_concat]
  dsimp only
  rw [List.dropLast_concat]

theorem endEntryElement_of_entry (value : Text) (entry : ResultEntry)
    (hname : "Entry".toList.isSuffixOf name = true) : endEntryElement name value entry = entry := by
  have hnone : entryKeys.lookup name = none := by
    rw [List.lookup_eq_none_iff]
    intro key hkey
    rw [bne_iff_ne]
    rintro rfl
    have hends : "Entry".toList.isSuffixOf key.1 ∈
        entryKeys.map fun key => "Entry".toList.isSuffixOf key.1 := List.mem_map_of_mem hkey
    rw [hname] at hends
    revert hends
    decide
  rw [endEntryElement, hnone]

/-- The names of the elements of entries. -/
theorem isSuffixOf_result (operation : BatchOperation) :
    "Entry".toList.isSuffixOf (operation.name ++ "ResultEntry".toList) = true := by
  cases operation with
  | sendMessage => decide
  | deleteMessage => decide
  | changeMessageVisibility => decide

theorem isResultEntry_eq_false (hname : "Entry".toList.isSuffixOf name = false) :
    isResultEntry name = false := by
  rw [← Bool.not_eq_true, isResultEntry, List.isSuffixOf_iff_suffix]
  intro hsuffix
  have hentry : "Entry".toList <:+ "MessageBatchResultEntry".toList :=
    List.isSuffixOf_iff_suffix.mp (by decide)
  rw [List.isSuffixOf_iff_suffix.mpr (hentry.trans hsuffix)] at hname
  cases hname

theorem ne_errorEntry (hname : "Entry".toList.isSuffixOf name = false) :
    name ≠ "BatchResultErrorEntry".toList := by
  rintro rfl
  revert hname
  decide

/-- The fields of an entry that succeeded go into its entry. -/
theorem reads_result {tag : Text} (htag : "Entry".toList.isSuffixOf tag = true)
    {items : List (Text × Text)}
    (hplain : ∀ item ∈ items, "Entry".toList.isSuffixOf item.1 = false) (lists : EntryLists)
    (entry : ResultEntry) :
    Reads listMethods tag .result (items.map fun field => .leaf field.1 field.2)
      (lists.1 ++ [entry], lists.2)
      (lists.1 ++ [items.foldl (fun entry field => endEntryElement field.1 field.2 entry) entry],
        lists.2) := by
  induction items generalizing entry with
  | nil => exact Reads.nil _ _ _ _
  | cons item items ih =>
      obtain ⟨hitem, hitems⟩ := List.forall_mem_cons.mp hplain
      have hne : tag ≠ item.1 := by
        rintro rfl
        rw [htag] at hitem
        cases hitem
      have hend : listMethods.endElement .result item.1 item.2 (lists.1 ++ [entry], lists.2) =
          .ok (lists.1 ++ [endEntryElement item.1 item.2 entry], lists.2) := by
        dsimp only [listMethods]
        rw [modifyLastEntry_append]
      exact (Reads.leaf hne rfl hend).cons (ih hitems _)

/-- The fields of an entry that failed go into its entry. -/
theorem reads_error {items : List (Text × Text)}
    (hplain : ∀ item ∈ items, "Entry".toList.isSuffixOf item.1 = false) (lists : EntryLists)
    (entry : ResultEntry) :
    Reads listMethods "BatchResultErrorEntry".toList .error
      (items.map fun field => .leaf field.1 field.2) (lists.1, lists.2 ++ [entry])
      (lists.1,
        lists.2 ++ [items.foldl (fun entry field => endEntryElement field.1 field.2 entry) entry]) := by
  induction items generalizing entry with
  | nil => exact Reads.nil _ _ _ _
  | cons item items ih =>
      obtain ⟨hitem, hitems⟩ := List.forall_mem_cons.mp hplain
      have hend : listMethods.endElement .error item.1 item.2 (lists.1, lists.2 ++ [entry]) =
          .ok (lists.1, lists.2 ++ [endEntryElement item.1 item.2 entry]) := by
        dsimp only [listMethods]
        rw [modifyLastEntry_append]
      exact (Reads.leaf (ne_errorEntry hitem).symm rfl hend).cons (ih hitems _)

/-- Fields outside of entries change no list. -/
theorem reads_outside {items : List (Text × Text)}
    (hplain : ∀ item ∈ items, "Entry".toList.isSuffixOf item.1 = false ∧ item.1 ≠ "root".toList)
    (lists : EntryLists) :
    Reads listMethods "root".toList .batchResults
      (items.map fun field => .leaf field.1 field.2) lists lists := by
  induction items with
  | nil => exact Reads.nil _ _ _ _
  | cons item items ih =>
      obtain ⟨⟨hentry, hroot⟩, hitems⟩ := List.forall_mem_cons.mp hplain
      have hstart : listMethods.startElement .batchResults item.1 lists = (none, lists) := by
        dsimp only [listMethods]
        rw [isResultEntry_eq_false hentry, if_neg Bool.false_ne_true, if_neg (ne_errorEntry hentry)]
      exact (Reads.leaf hroot.symm hstart rfl).cons (ih hitems)

theorem EntryFields.plain_items (self : EntryFields) : ∀ item ∈ self.fields.items,
    "Entry".toList.isSuffixOf item.1 = false ∧ item.1 ≠ "root".toList :=
  fun _ hitem => self.plain _ (List.mem_map_of_mem hitem)

/-- The entry that the results show for an outcome. -/
def Outcome.result? (operation : BatchOperation) (outcome : Outcome) : Option ResultEntry :=
  if operation = .changeMessageVisibility then none
  else outcome.succeeded?.map EntryFields.entry

/-- The entry that the errors show for an outcome. -/
def Outcome.error? (outcome : Outcome) : Option ResultEntry :=
  outcome.failed?.map EntryFields.entry

/-- The lists that some outcomes make. -/
def listsOf (operation : BatchOperation) (outcomes : List Outcome) : EntryLists :=
  (outcomes.filterMap (Outcome.result? operation), outcomes.filterMap Outcome.error?)

theorem filterMap_one {α β : Type} (f : α → Option β) (x : α) :
    [x].filterMap f = (f x).toList := by
  rw [List.filterMap_cons]
  cases f x with
  | none => rfl
  | some y => rfl

/-- One outcome adds its entry to one of the lists. -/
theorem reads_outcome (operation : BatchOperation) (done : List Outcome) (outcome : Outcome) :
    Reads listMethods "root".toList .batchResults [outcome.element operation]
      (listsOf operation done) (listsOf operation (done ++ [outcome])) := by
  have hlists : listsOf operation (done ++ [outcome]) =
      ((listsOf operation done).1 ++ [outcome].filterMap (Outcome.result? operation),
        (listsOf operation done).2 ++ [outcome].filterMap Outcome.error?) := by
    rw [listsOf, List.filterMap_append, List.filterMap_append, listsOf]
  rw [hlists]
  cases outcome with
  | succeeded fields =>
      have hplain := fields.plain_items
      have hentry := fun item hitem => (hplain item hitem).1
      have hsuffix := isSuffixOf_result operation
      have herror : [Outcome.succeeded fields].filterMap Outcome.error? = [] := rfl
      by_cases hchange : operation = .changeMessageVisibility
      · have hnone : [Outcome.succeeded fields].filterMap (Outcome.result? operation) = [] := by
          rw [filterMap_one, Outcome.result?, if_pos hchange]
          rfl
        rw [hnone, herror, List.append_nil, List.append_nil]
        subst hchange
        have hroot : "root".toList ≠
            BatchOperation.changeMessageVisibility.name ++ "ResultEntry".toList := by decide
        exact Reads.skipped hroot rfl (reads_outside hplain _) fun _ => rfl
      · have hsome : [Outcome.succeeded fields].filterMap (Outcome.result? operation) =
            [fields.entry] := by
          rw [filterMap_one, Outcome.result?, if_neg hchange]
          rfl
        have hopens : isResultEntry (operation.name ++ "ResultEntry".toList) = true := by
          cases operation with
          | sendMessage => decide
          | deleteMessage => decide
          | changeMessageVisibility => exact absurd rfl hchange
        have hstart : listMethods.startElement .batchResults
            (operation.name ++ "ResultEntry".toList) (listsOf operation done) =
              (some .result,
                ((listsOf operation done).1 ++ [.empty], (listsOf operation done).2)) := by
          dsimp only [listMethods]
          rw [if_pos hopens]
        have hend : ∀ text, listMethods.endElement .result
            (operation.name ++ "ResultEntry".toList) text
            ((listsOf operation done).1 ++ [fields.entry], (listsOf operation done).2) =
              .ok ((listsOf operation done).1 ++ [fields.entry], (listsOf operation done).2) := by
          intro text
          dsimp only [listMethods]
          rw [modifyLastEntry_append, endEntryElement_of_entry text _ hsuffix]
        rw [hsome, herror, List.append_nil]
        exact Reads.element hstart (reads_result hsuffix hentry _ .empty) hend
  | failed fields =>
      have hentry := fun item hitem => (fields.plain_items item hitem).1
      have hnone : [Outcome.failed fields].filterMap (Outcome.result? operation) = [] := by
        rw [filterMap_one, Outcome.result?]
        exact congrArg Option.toList (ite_self none)
      have hend : ∀ text, listMethods.endElement .error "BatchResultErrorEntry".toList text
          ((listsOf operation done).1, (listsOf operation done).2 ++ [fields.entry]) =
            .ok ((listsOf operation done).1, (listsOf operation done).2 ++ [fields.entry]) := by
        intro text
        dsimp only [listMethods]
        rw [modifyLastEntry_append, endEntryElement_of_entry text _ (by decide)]
      rw [hnone, List.append_nil]
      exact Reads.element rfl (reads_error hentry (listsOf operation done) .empty) hend

/-- The lists that are read from an answer. -/
theorem lists_readResults (operation : BatchOperation) (outcomes : List Outcome)
    (requestId : Text) : ∃ results, readResults (answer operation outcomes requestId) = .ok results ∧
      results.lists = listsOf operation outcomes := by
  have houtcomes := Reads.items (fun done outcome => reads_outcome operation done outcome) []
    outcomes
  rw [List.nil_append] at houtcomes
  have hstart : ∀ name lists, "Entry".toList.isSuffixOf name = false →
      listMethods.startElement .batchResults name lists = (none, lists) := by
    intro name lists hentry
    dsimp only [listMethods]
    rw [isResultEntry_eq_false hentry, if_neg Bool.false_ne_true, if_neg (ne_errorEntry hentry)]
  have hnames : "Entry".toList.isSuffixOf (operation.name ++ "Result".toList) = false ∧
      "Entry".toList.isSuffixOf (operation.name ++ "Response".toList) = false ∧
      "root".toList ≠ operation.name ++ "Result".toList ∧
      "root".toList ≠ operation.name ++ "Response".toList := by
    cases operation with
    | sendMessage => decide
    | deleteMessage => decide
    | changeMessageVisibility => decide
  obtain ⟨hresult, hresponse, hroot, hroot'⟩ := hnames
  have hid : Reads listMethods "root".toList .batchResults [.leaf "RequestId".toList requestId]
      (listsOf operation outcomes) (listsOf operation outcomes) :=
    Reads.leaf (by decide) (hstart _ _ (by decide)) rfl
  have hmetadata : Reads listMethods "root".toList .batchResults
      [.element "ResponseMetadata".toList [.leaf "RequestId".toList requestId]]
      (listsOf operation outcomes) (listsOf operation outcomes) :=
    Reads.skipped (by decide) (hstart _ _ (by decide)) hid fun _ => rfl
  have hentries := Reads.skipped hroot (hstart _ _ hresult) houtcomes fun _ => rfl
  have hparse := (Reads.skipped hroot' (hstart _ _ hresponse) (hentries.cons hmetadata)
    fun _ => rfl).parse
  have hview := parse_viewed respects_lists .batchResults .init
    (answer operation outcomes requestId).events
  rw [← readResults] at hview
  have hlists : (readResults (answer operation outcomes requestId)).map BatchResults.lists =
      .ok (listsOf operation outcomes) := hview.symm.trans hparse
  cases hread : readResults (answer operation outcomes requestId) with
  | error e =>
      rw [hread] at hlists
      cases hlists
  | ok results =>
      rw [hread] at hlists
      exact ⟨results, rfl, Except.ok.inj hlists⟩

/-! ## Fields -/

theorem mem_of_lookup {keys : List (Text × Text)} {name key : Text}
    (hlookup : keys.lookup name = some key) : (name, key) ∈ keys := by
  obtain ⟨before, after, rfl, -⟩ := List.lookup_eq_some_iff.mp hlookup
  exact List.mem_append_right _ List.mem_cons_self

theorem lookup_entryKeys {key : Text × Text} (hkey : key ∈ entryKeys) (name : Text) :
    entryKeys.lookup name = some key.2 ↔ name = key.1 := by
  constructor
  · intro hlookup
    have hnodup : (entryKeys.map Prod.snd).Nodup := by decide
    exact congrArg Prod.fst (List.inj_on_of_nodup_map hnodup (mem_of_lookup hlookup) hkey rfl)
  · rintro rfl
    simp only [entryKeys, List.mem_cons, List.not_mem_nil, or_false] at hkey
    rcases hkey with rfl | rfl | rfl | rfl | rfl | rfl
    all_goals rfl

theorem get?_endEntryElement (name value key : Text) (entry : ResultEntry) :
    (endEntryElement name value entry).get? key =
      if entryKeys.lookup name = some key then some value else entry.get? key := by
  rw [endEntryElement]
  cases hlookup : entryKeys.lookup name with
  | none => rw [if_neg (Option.some_ne_none key).symm]
  | some key' =>
      dsimp only
      rw [OrderedDict.get?_set]
      simp only [Option.some.injEq, eq_comm]

/-- Fields go into the keys of their elements. -/
theorem get?_foldl_endEntryElement {key : Text × Text} (hkey : key ∈ entryKeys)
    {items : List (Text × Text)} (hnodup : (items.map Prod.fst).Nodup) (entry : ResultEntry) :
    (∀ value, (key.1, value) ∈ items →
      (items.foldl (fun entry field => endEntryElement field.1 field.2 entry) entry).get? key.2 =
        some value) ∧
    (key.1 ∉ items.map Prod.fst →
      (items.foldl (fun entry field => endEntryElement field.1 field.2 entry) entry).get? key.2 =
        entry.get? key.2) := by
  induction items generalizing entry with
  | nil => exact ⟨(fun _ hmem => nomatch hmem), fun _ => rfl⟩
  | cons item items ih =>
      rw [List.map_cons, List.nodup_cons] at hnodup
      obtain ⟨hin, hout⟩ := ih hnodup.2 (endEntryElement item.1 item.2 entry)
      rw [List.foldl_cons]
      constructor
      · intro value hmem
        rcases List.mem_cons.mp hmem with rfl | hmem
        · rw [hout hnodup.1, get?_endEntryElement, if_pos ((lookup_entryKeys hkey _).mpr rfl)]
        · exact hin value hmem
      · intro hkeys
        rw [List.map_cons, List.mem_cons, not_or] at hkeys
        rw [hout hkeys.2, get?_endEntryElement,
          if_neg (mt (lookup_entryKeys hkey _).mp (Ne.symm hkeys.1))]

/-- Nothing goes into other keys. -/
theorem get?_foldl_endEntryElement_of_notMem {name : Text} (hname : name ∉ entryKeys.map Prod.snd)
    (items : List (Text × Text)) (entry : ResultEntry) :
    (items.foldl (fun entry field => endEntryElement field.1 field.2 entry) entry).get? name =
      entry.get? name := by
  induction items generalizing entry with
  | nil => rfl
  | cons item items ih =>
      rw [List.foldl_cons, ih, get?_endEntryElement, if_neg]
      exact fun hlookup => hname (List.mem_map_of_mem (mem_of_lookup hlookup))

/-- An entry has the fields that it is made from. -/
theorem holdsFields_entry (fields : EntryFields) : HoldsFields fields.entry fields := by
  constructor
  · intro key hkey
    obtain ⟨hin, hout⟩ := get?_foldl_endEntryElement hkey fields.fields.nodup .empty
    cases hget : fields.fields.get? key.1 with
    | none => exact hout (OrderedDict.get?_eq_none_iff.mp hget)
    | some value => exact hin value (OrderedDict.get?_eq_some_iff.mp hget)
  · intro name hname
    exact get?_foldl_endEntryElement_of_notMem hname _ .empty

theorem forall₂_holdsFields (fields : List EntryFields) :
    List.Forall₂ HoldsFields (fields.map EntryFields.entry) fields := by
  rw [List.forall₂_map_left_iff]
  exact List.forall₂_same.mpr fun fields _ => holdsFields_entry fields

/-- The results and errors account for every entry just if no visibility was changed. -/
theorem isCarried_and_isAccounted_iff (call : BatchCall) (outcomes : List Outcome)
    (requestId : Text) :
    IsCarried call ∧ IsAccounted call.operation outcomes requestId ↔
      (call.operation = .changeMessageVisibility → ∀ fields, .succeeded fields ∉ outcomes) := by
  rw [and_iff_right (isCarried call)]
  generalize call.operation = operation
  obtain ⟨results, hread, hlists⟩ := lists_readResults operation outcomes requestId
  have hresults : results.results = outcomes.filterMap (Outcome.result? operation) :=
    congrArg Prod.fst hlists
  have herrors : results.errors = (outcomes.filterMap Outcome.failed?).map EntryFields.entry := by
    rw [List.map_filterMap]
    exact congrArg Prod.snd hlists
  constructor
  · rintro ⟨results', hread', hsucceeded, -⟩ hchange fields hfields
    cases hread.symm.trans hread'
    have hnone : outcomes.filterMap (Outcome.result? operation) = [] := by
      rw [List.filterMap_eq_nil_iff]
      exact fun outcome _ => if_pos hchange
    rw [hresults, hnone, List.forall₂_nil_left_iff, List.filterMap_eq_nil_iff] at hsucceeded
    cases hsucceeded _ hfields
  · intro hoperation
    refine ⟨results, hread, ?_, herrors ▸ forall₂_holdsFields _⟩
    have hshown : outcomes.filterMap (Outcome.result? operation) =
        (outcomes.filterMap Outcome.succeeded?).map EntryFields.entry := by
      rw [List.map_filterMap]
      apply List.filterMap_congr
      intro outcome houtcome
      by_cases hchange : operation = .changeMessageVisibility
      · cases outcome with
        | succeeded fields => exact absurd houtcome (hoperation hchange fields)
        | failed fields => exact if_pos hchange
      · exact if_neg hchange
    rw [hresults, hshown]
    exact forall₂_holdsFields _

end

/-- A visibility that was changed is in neither list. -/
theorem not_forall_isAccounted : ¬∀ (call : BatchCall) (outcomes : List Outcome)
    (requestId : Text), IsCarried call ∧ IsAccounted call.operation outcomes requestId := by
  intro hall
  obtain ⟨-, results, hread, hsucceeded, -⟩ :=
    hall (.changeMessageVisibility []) [.succeeded ⟨.empty, fun _ hname => nomatch hname⟩] []
  obtain ⟨results', hread', hlists⟩ := lists_readResults .changeMessageVisibility
    [.succeeded ⟨.empty, fun _ hname => nomatch hname⟩] []
  cases hread.symm.trans hread'
  have hresults : results.results = [] := congrArg Prod.fst hlists
  rw [hresults, List.forall₂_nil_left_iff] at hsucceeded
  cases hsucceeded

end Boto.SQS
