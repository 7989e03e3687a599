import Boto.SQS.Message

/-!
# Writing a message and reading it back

A body with base64 comes back as a text, if its bytes are UTF-8.  Headers are written in lines
without any quoting, so they come back exactly if none of them has a newline.
-/

namespace Boto.SQS

open Xml (Node)

/-! ## Lines -/

theorem readlines_line {line : Text} (hline : '\n' ∉ line) (text : Text) :
    readlines (line ++ '\n' :: text) = (line ++ ['\n']) :: readlines text := by
  induction line with
  | nil => rw [List.nil_append, readlines, if_pos rfl, List.nil_append]
  | cons c line ih =>
      obtain ⟨hc, hline⟩ := not_or.mp (mt List.mem_cons.mpr hline)
      rw [List.cons_append, readlines, if_neg (Ne.symm hc), ih hline]
      rfl

/-- A line has a newline at most at its end. -/
def IsLine (line : Text) : Prop :=
  ∃ front, '\n' ∉ front ∧ (line = front ++ ['\n'] ∨ line = front)

theorem isLine_of_mem_readlines {text line : Text} (hline : line ∈ readlines text) :
    IsLine line := by
  induction text generalizing line with
  | nil => cases hline
  | cons c text ih =>
      rw [readlines] at hline
      split at hline
      · rename_i hc
        rcases List.mem_cons.mp hline with rfl | hline
        · exact ⟨[], List.not_mem_nil, .inl (congrArg (fun c => [c]) hc)⟩
        · exact ih hline
      · rename_i hc
        split at hline
        · obtain rfl := List.mem_singleton.mp hline
          exact ⟨[c], mt List.mem_singleton.mp (Ne.symm hc), .inr rfl⟩
        · rename_i first lines hlines
          rw [hlines] at ih
          rcases List.mem_cons.mp hline with rfl | hline
          · obtain ⟨front, hfront, hend⟩ := ih List.mem_cons_self
            refine ⟨c :: front, List.not_mem_cons_of_ne_of_not_mem (Ne.symm hc) hfront, ?_⟩
            exact hend.imp (congrArg (c :: ·)) (congrArg (c :: ·))
          · exact ih (List.mem_cons_of_mem _ hline)

theorem stripText_cons {c : Char} (hc : isWhitespace c = true) (text : Text) :
    stripText (c :: text) = stripText text := by
  rw [stripText, stripText, List.dropWhile_cons_of_pos hc]

theorem stripText_concat {c : Char} (hc : isWhitespace c = true) (text : Text) :
    stripText (text ++ [c]) = stripText text := by
  rw [stripText, stripText, List.dropWhile_append]
  split
  · rename_i hempty
    rw [List.isEmpty_iff.mp hempty, List.dropWhile_cons_of_pos hc]
    rfl
  · rw [List.reverse_append, List.reverse_singleton, List.singleton_append,
      List.dropWhile_cons_of_pos hc]

/-- Stripping takes the newline off a line. -/
theorem newline_notMem_stripText {line : Text} (hline : IsLine line) : '\n' ∉ stripText line := by
  obtain ⟨front, hfront, rfl | rfl⟩ := hline
  · rw [stripText_concat rfl]
    exact fun hmem => hfront (mem_of_mem_stripText hmem)
  · exact fun hmem => hfront (mem_of_mem_stripText hmem)

theorem IsLine.drop {line : Text} (hline : IsLine line) (n : ℕ) : IsLine (line.drop n) := by
  obtain ⟨front, hfront, rfl | rfl⟩ := hline
  · refine ⟨front.drop n, fun hmem => hfront (List.mem_of_mem_drop hmem), ?_⟩
    rw [List.drop_append]
    cases n - front.length with
    | zero => exact .inl rfl
    | succ k => exact .inr (by rw [List.drop_succ_cons, List.drop_nil, List.append_nil])
  · exact ⟨line.drop n, fun hmem => hfront (List.mem_of_mem_drop hmem), .inr rfl⟩

theorem newline_notMem_headerOf {line : Text} (hline : IsLine line) :
    '\n' ∉ (headerOf line).1 ∧ '\n' ∉ (headerOf line).2 := by
  rw [headerOf]
  split
  · rename_i delim hfind
    refine ⟨fun hmem => ?_, newline_notMem_stripText (hline.drop _)⟩
    obtain ⟨hlt, hcolon, -⟩ := List.findIdx?_eq_some_iff_getElem.mp hfind
    have htake := mem_of_mem_stripText hmem
    obtain ⟨front, hfront, rfl | rfl⟩ := hline
    · have hlt : delim < front.length := by
        by_contra hge
        rw [List.length_append, List.length_singleton] at hlt
        obtain rfl : delim = front.length := by omega
        simp at hcolon
      rw [List.take_append_of_le_length hlt.le] at htake
      exact hfront (List.mem_of_mem_take htake)
    · exact hfront (List.mem_of_mem_take htake)
  · refine ⟨fun hmem => ?_, newline_notMem_stripText hline⟩
    have hlast := mem_of_mem_stripText hmem
    obtain ⟨front, hfront, rfl | rfl⟩ := hline
    · rw [List.dropLast_concat] at hlast
      exact hfront hlast
    · exact hfront (List.dropLast_subset _ hlast)

/-! ## Headers -/

/-- A header has no colon in its name and no white space at the ends of its name and value. -/
structure IsHeader (item : Text × Text) : Prop where
  colon : ':' ∉ item.1
  name : stripText item.1 = item.1
  value : stripText item.2 = item.2

theorem headerOf_headerLine {item : Text × Text} (hitem : IsHeader item) :
    headerOf (headerLine item) = item := by
  obtain ⟨name, value⟩ := item
  have hnone : name.findIdx? (· = ':') = none := by
    rw [List.findIdx?_eq_none_iff]
    intro c hc
    exact decide_eq_false fun heq => hitem.colon (heq ▸ hc)
  have hfind : (headerLine (name, value)).findIdx? (· = ':') = some name.length := by
    have hcolon : (':' :: ' ' :: (value ++ ['\n'])).findIdx? (· = ':') = some 0 := rfl
    rw [headerLine, List.findIdx?_append, hnone, hcolon]
    simp
  have htake : (headerLine (name, value)).take name.length = name := List.take_left
  have hdrop : (headerLine (name, value)).drop (name.length + 1) = ' ' :: (value ++ ['\n']) := by
    rw [headerLine, ← List.drop_drop, List.drop_left]
    rfl
  have hvalue : stripText (' ' :: (value ++ ['\n'])) = value := by
    rw [stripText_cons rfl, stripText_concat rfl]
    exact hitem.value
  rw [headerOf, hfind]
  dsimp only
  rw [htake, hdrop, hvalue, hitem.name]

/-- A header is in one line. -/
def IsOneLine (item : Text × Text) : Prop :=
  '\n' ∉ item.1 ∧ '\n' ∉ item.2

theorem readlines_flatMap_headerLine {items : List (Text × Text)}
    (hlines : ∀ item ∈ items, IsOneLine item) :
    readlines (items.flatMap headerLine) = items.map headerLine := by
  induction items with
  | nil => rfl
  | cons item items ih =>
      obtain ⟨hitem, hlines⟩ := List.forall_mem_cons.mp hlines
      have hfront : '\n' ∉ item.1 ++ ':' :: ' ' :: item.2 := by
        simp [hitem.1, hitem.2]
      have hline : headerLine item = (item.1 ++ ':' :: ' ' :: item.2) ++ ['\n'] := by
        simp [headerLine]
      rw [List.flatMap_cons, hline, List.append_assoc, List.singleton_append,
        readlines_line hfront, ih hlines, List.map_cons, hline]

/-- Headers that are in one line each are read back. -/
theorem readHeaders_of_isOneLine {headers : OrderedDict Text Text}
    (hheaders : ∀ item ∈ headers.items, IsHeader item)
    (hlines : ∀ item ∈ headers.items, IsOneLine item) :
    readHeaders (headers.items.flatMap headerLine) = headers := by
  have hsame : ∀ items : List (Text × Text), (∀ item ∈ items, IsHeader item) →
      (items.map headerLine).map headerOf = items := by
    intro items hitems
    rw [List.map_map]
    conv_rhs => rw [← List.map_id items]
    exact List.map_congr_left fun item hitem => headerOf_headerLine (hitems item hitem)
  have hfold : ∀ lines : List Text, lines.foldl (fun msg line =>
      msg.set (headerOf line).1 (headerOf line).2) OrderedDict.empty =
        (lines.map headerOf).foldl (fun msg item => msg.set item.1 item.2) .empty := by
    intro lines
    rw [List.foldl_map]
  rw [readHeaders, readlines_flatMap_headerLine hlines, hfold, hsame _ hheaders]
  exact OrderedDict.empty_update headers

/-- What was read has no newline. -/
theorem isOneLine_of_readHeaders {value : Text} {item : Text × Text}
    (hget : (readHeaders value).get? item.1 = some item.2) : IsOneLine item := by
  rcases OrderedDict.mem_of_get?_foldl_set hget with ⟨line, hline, hname, hvalue⟩ | ⟨-, hempty⟩
  · have hnot := newline_notMem_headerOf (isLine_of_mem_readlines hline)
    rw [hname, hvalue] at hnot
    exact hnot
  · cases hempty

/-! ## Reading the answer -/

section

variable {cls : MessageClass} {message : Received} {name value : Text}

/-- The body of a message and its receipt handle. -/
def Received.core (message : Received) : Body × Option Text :=
  (message.body, message.receiptHandle)

theorem Received.core_endElement (hbody : name ≠ "Body".toList)
    (hhandle : name ≠ "ReceiptHandle".toList) :
    (message.endElement name value).core = message.core := by
  rw [Received.endElement, if_neg hbody, if_neg hhandle]
  split_ifs <;> rfl

@[simp] theorem Received.core_modifyAttributes (f : MessageAttributes → MessageAttributes) :
    (message.modifyAttributes f).core = message.core := rfl

/-- A node in the element of a message keeps the body and the receipt handle. -/
def KeepsCore (cls : MessageClass) (node : Node) : Prop :=
  ∀ message : Received, ∃ message' : Received, message'.core = message.core ∧
    Reads (methods cls) "Message".toList .message [node] [message] [message']

/-- The names of elements that are read by objects of their own, or end a message. -/
def ownNames : List Text :=
  ["Message".toList, "Attribute".toList, "MessageAttribute".toList]

theorem reads_leaf (hname : name ∉ ownNames) (value : Text) (message : Received) :
    Reads (methods cls) "Message".toList .message [.leaf name value] [message]
      [message.endElement name value] := by
  simp only [ownNames, List.mem_cons, List.not_mem_nil, or_false, not_or] at hname
  obtain ⟨hmessage, hattribute, hattributes⟩ := hname
  have hstart : (methods cls).startElement .message name [message] = (none, [message]) := by
    simp only [methods, if_neg hattribute, if_neg hattributes]
  have hend : (methods cls).endElement .message name value [message] =
      .ok [message.endElement name value] := by
    simp only [methods, if_neg hmessage]
    rfl
  exact Reads.leaf (Ne.symm hmessage) hstart hend

theorem keepsCore_leaf (hname : name ∉ ownNames) (hbody : name ≠ "Body".toList)
    (hhandle : name ≠ "ReceiptHandle".toList) (value : Text) :
    KeepsCore cls (.leaf name value) := fun message =>
  ⟨_, Received.core_endElement hbody hhandle, reads_leaf hname value message⟩

theorem keepsCore_attributeElement (pair : Text × Text) :
    KeepsCore cls (Envelope.attributeElement pair) := by
  intro message
  let named := { message with
    attributes := message.attributes.endElement "Name".toList pair.1 }
  let valued := { named with attributes := named.attributes.endElement "Value".toList pair.2 }
  refine ⟨{ valued with attributes := valued.attributes.endElement "Attribute".toList [] }, ?_, ?_⟩
  · simp only [valued, named, Received.core]
  have hname : Reads (methods cls) "Attribute".toList .attributes
      [.leaf "Name".toList pair.1] [message] [named] := Reads.leaf (by decide) rfl rfl
  have hvalue : Reads (methods cls) "Attribute".toList .attributes
      [.leaf "Value".toList pair.2] [named] [valued] := Reads.leaf (by decide) rfl rfl
  exact Reads.element rfl (hname.cons hvalue) fun _ => rfl

/-- A leaf in the value of a message attribute. -/
theorem reads_attributeValue (hname : "Value".toList ≠ name) (value : Text) (message : Received) :
    Reads (methods cls) "Value".toList .attributeValue [.leaf name value] [message]
      [message.modifyAttributes (·.endValueElement name value)] :=
  Reads.leaf hname rfl rfl

/-- The value of a message attribute ends without a change. -/
theorem endElement_attributeValue (text : Text) (message : Received) :
    (methods cls).endElement .attributeValue "Value".toList text [message] = .ok [message] := rfl

theorem endElement_messageAttribute (text : Text) (message : Received) :
    (methods cls).endElement .messageAttributes "MessageAttribute".toList text [message] =
      .ok [message.modifyAttributes fun self =>
        { self with items := self.items.set self.currentKey self.currentValue }] := rfl

theorem keepsCore_messageAttributeElement (named : Text × Text × Text) :
    KeepsCore cls (Envelope.messageAttributeElement named) := by
  intro message
  have hname : Reads (methods cls) "MessageAttribute".toList .messageAttributes
      [.leaf "Name".toList named.1] [message]
        [message.modifyAttributes (·.endElement "Name".toList named.1)] :=
    Reads.leaf (by decide) rfl rfl
  generalize hstart : message.modifyAttributes (·.endElement "Name".toList named.1) = start at hname
  have hstring := @reads_attributeValue cls _ (by decide : "Value".toList ≠ "StringValue".toList)
    named.2.1 (start.modifyAttributes fun self => { self with currentValue := some .empty })
  have htype := @reads_attributeValue cls _ (by decide : "Value".toList ≠ "DataType".toList)
    named.2.2
  have hvalue := @Reads.element _ _ (methods cls) "MessageAttribute".toList .messageAttributes [start]
    _ _ _ _ _ _ rfl (hstring.cons (htype _)) (endElement_attributeValue · _)
  have hclosed := @Reads.element _ _ (methods cls) "Message".toList .message [message] _ _ _ _ _ _
    rfl (hname.cons hvalue) (endElement_messageAttribute · _)
  refine ⟨_, ?_, hclosed⟩
  simp only [Received.core_modifyAttributes, ← hstart]

theorem reads_of_keepsCore {nodes : List Node} (hnodes : ∀ node ∈ nodes, KeepsCore cls node)
    (message : Received) : ∃ message' : Received, message'.core = message.core ∧
      Reads (methods cls) "Message".toList .message nodes [message] [message'] := by
  induction nodes generalizing message with
  | nil => exact ⟨message, rfl, Reads.nil _ _ _ _⟩
  | cons node nodes ih =>
      obtain ⟨hnode, hnodes⟩ := List.forall_mem_cons.mp hnodes
      obtain ⟨between, hbetween, hread⟩ := hnode message
      obtain ⟨message', hcore, hrest⟩ := ih hnodes between
      exact ⟨message', hcore.trans hbetween, hread.cons hrest⟩

theorem keepsCore_back (envelope : Envelope) :
    ∀ node ∈ envelope.back, KeepsCore cls node := by
  simp only [Envelope.back, List.forall_mem_append, List.forall_mem_map]
  exact ⟨fun pair _ => keepsCore_attributeElement pair,
    fun _ _ => keepsCore_leaf (by decide) (by decide) (by decide) _,
    fun named _ => keepsCore_messageAttributeElement named⟩

/-- What comes before the body tells the receipt handle. -/
theorem reads_front (envelope : Envelope) (message : Received) :
    ∃ message' : Received, message'.receiptHandle = some envelope.receiptHandle ∧
      Reads (methods cls) "Message".toList .message envelope.front [message] [message'] := by
  have hid := @reads_leaf cls _ (by decide : "MessageId".toList ∉ ownNames) envelope.messageId
    message
  have hhandle := @reads_leaf cls _ (by decide : "ReceiptHandle".toList ∉ ownNames)
    envelope.receiptHandle
  have hmd5 := @reads_leaf cls _ (by decide : "MD5OfBody".toList ∉ ownNames) envelope.md5OfBody
  refine ⟨_, ?_, hid.cons ((hhandle _).cons (hmd5 _))⟩
  have hcore := @Received.core_endElement
    ((message.endElement "MessageId".toList envelope.messageId).endElement "ReceiptHandle".toList
      envelope.receiptHandle) "MD5OfBody".toList envelope.md5OfBody (by decide) (by decide)
  exact congrArg Prod.snd hcore

/-- A message is read from an answer with the body that its class decodes. -/
theorem read_reply (envelope : Envelope) {stored : Text} {body : Body}
    (hdecode : cls.decode (.text stored) = .ok body) :
    ∃ message, read cls (envelope.reply stored) = .ok (some message) ∧ message.body = body ∧
      message.receiptHandle = some envelope.receiptHandle := by
  obtain ⟨first, hfirst, hfront⟩ := reads_front envelope (.init cls)
  have hbody := @reads_leaf cls _ (by decide : "Body".toList ∉ ownNames) stored first
  obtain ⟨last, hcore, hback⟩ := reads_of_keepsCore (keepsCore_back envelope)
    (first.endElement "Body".toList stored)
  have hlast : last.body = .text stored := congrArg Prod.fst hcore
  have hhandle : last.receiptHandle = some envelope.receiptHandle :=
    (congrArg Prod.snd hcore).trans hfirst
  refine ⟨{ last with body := body }, ?_, rfl, hhandle⟩
  have hend : ∀ text, (methods cls).endElement .message "Message".toList text [last] =
      .ok [{ last with body := body }] := by
    intro text
    have hnode : (last.endElement "Message".toList text).endNode cls =
        .ok { last with body := body } := by
      change (cls.decode last.body).map _ = _
      rw [hlast, hdecode]
      rfl
    simp only [methods, if_true, modifyLast, List.getLast?_singleton, hnode]
    rfl
  have hmessage : Reads (methods cls) "root".toList .resultSet
      [.element "Message".toList
        (envelope.front ++ (.leaf "Body".toList stored :: envelope.back))] []
      [{ last with body := body }] := Reads.element rfl (hfront.append (hbody.cons hback)) hend
  have hid : Reads (methods cls) "root".toList .resultSet
      [.leaf "RequestId".toList envelope.requestId] [{ last with body := body }]
      [{ last with body := body }] := Reads.leaf (by decide) rfl rfl
  have hresult := Reads.skipped (by decide : "root".toList ≠ "ReceiveMessageResult".toList) rfl
    hmessage fun _ => rfl
  have hmetadata := Reads.skipped (by decide : "root".toList ≠ "ResponseMetadata".toList) rfl
    hid fun _ => rfl
  have hparse := Reads.parse (Reads.skipped
    (by decide : "root".toList ≠ "ReceiveMessageResponse".toList) rfl
      (hresult.cons hmetadata) fun _ => rfl)
  rw [read, Envelope.reply, hparse]
  rfl

end

/-! ## Transparency -/

/-- The bodies that a class is for. -/
def IsBody : MessageClass → Body → Prop
  | .message, .text _ => True
  | .message, .bytes _ => True
  | .mhMessage, .headers value => ∀ item ∈ value.items, IsHeader item
  | .encodedMhMessage, .headers value => ∀ item ∈ value.items, IsHeader item
  | _, _ => False

/-- A body that was read has what was written: the same text, the same content for bytes, and the
same mapping for headers. -/
def SameContent : Body → Body → Prop
  | .text value, .text value' => value' = value
  | .bytes value, .text value' => encodeUtf8 value' = value
  | .bytes value, .bytes value' => value' = value
  | .headers value, .headers value' => ∀ name, value'.get? name = value.get? name
  | _, _ => False

/-- Writing a body is refused, or reading it back gives the same. -/
def IsTransparent (cls : MessageClass) (body : Body) : Prop :=
  ∀ (accepts : Text → Bool) (envelope : Envelope),
    write accepts cls body = .error .requestError ∨
      ∃ stored message, write accepts cls body = .ok stored ∧
        read cls (envelope.reply stored) = .ok (some message) ∧ SameContent body message.body

/-- Bytes are UTF-8, and headers are in one line each. -/
def IsPlainBody : Body → Prop
  | .text _ => True
  | .bytes value => ∃ text, encodeUtf8 text = value
  | .headers value => ∀ item ∈ value.items, IsOneLine item

/-- A message without anything besides its body. -/
def plainEnvelope : Envelope where
  messageId := []
  receiptHandle := []
  md5OfBody := []
  attributes := []
  md5OfMessageAttributes := none
  messageAttributes := []
  requestId := []

section

variable {cls : MessageClass} {body : Body}

/-- Whether a body is read back depends on what its class decodes. -/
theorem isTransparent_iff_sameContent {stored : Text} {decoded : Body}
    (hencode : cls.encode body = .ok stored) (hdecode : cls.decode (.text stored) = .ok decoded) :
    IsTransparent cls body ↔ SameContent body decoded := by
  have hwrite : ∀ accepts, write accepts cls body =
      if accepts stored then .ok stored else .error .requestError := by
    intro accepts
    rw [write, hencode]
    rfl
  constructor
  · intro htransparent
    rcases htransparent (fun _ => true) plainEnvelope with hrefused | ⟨content, message, hwritten,
      hread, hsame⟩
    · rw [hwrite, if_pos rfl] at hrefused
      cases hrefused
    · rw [hwrite, if_pos rfl] at hwritten
      cases hwritten
      obtain ⟨message', hread', rfl, -⟩ := read_reply plainEnvelope hdecode
      rw [hread'] at hread
      cases hread
      exact hsame
  · intro hsame accepts envelope
    rw [hwrite]
    split
    · obtain ⟨message, hread, rfl, -⟩ := read_reply envelope hdecode
      exact .inr ⟨stored, message, rfl, hread, hsame⟩
    · exact .inl rfl

theorem decodeBase64_encode_text (text : Text) :
    decodeBase64 (.text (Base64.encode (encodeUtf8 text))) = some text := by
  rw [decodeBase64, Base64.decode_encode, Option.bind_some, Auth.decodeUtf8_encodeUtf8]
  rfl

theorem isTransparent_text (value : Text) : IsTransparent .message (.text value) := by
  have hdecode : MessageClass.message.decode (.text (Base64.encode (encodeUtf8 value))) =
      .ok (.text value) := by
    rw [MessageClass.decode, decodeBase64_encode_text]
  exact (isTransparent_iff_sameContent rfl hdecode).mpr rfl

theorem isTransparent_bytes_iff (value : Bytes) :
    IsTransparent .message (.bytes value) ↔ ∃ text, encodeUtf8 text = value := by
  by_cases hutf8 : ∃ text, encodeUtf8 text = value
  · obtain ⟨text, rfl⟩ := hutf8
    have hdecode : MessageClass.message.decode (.text (Base64.encode (encodeUtf8 text))) =
        .ok (.text text) := by
      rw [MessageClass.decode, decodeBase64_encode_text]
    exact iff_of_true ((isTransparent_iff_sameContent rfl hdecode).mpr rfl) ⟨text, rfl⟩
  · have hnone : decodeBase64 (.text (Base64.encode value)) = none := by
      rw [decodeBase64, Base64.decode_encode, Option.bind_some]
      cases hdecoded : Auth.decodeUtf8 value with
      | error e => rfl
      | ok text => exact absurd ⟨text, Auth.decodeUtf8_eq_ok hdecoded⟩ hutf8
    have hdecode : MessageClass.message.decode (.text (Base64.encode value)) =
        .ok (.text (Base64.encode value)) := by
      rw [MessageClass.decode, hnone]
    rw [isTransparent_iff_sameContent rfl hdecode]
    exact iff_of_false (fun hsame => hutf8 ⟨_, hsame⟩) hutf8

/-- Headers are read back exactly if they are in one line each. -/
theorem sameContent_readHeaders_iff {headers : OrderedDict Text Text}
    (hheaders : ∀ item ∈ headers.items, IsHeader item) :
    SameContent (.headers headers)
        (.headers (readHeaders (headers.items.flatMap headerLine))) ↔
      ∀ item ∈ headers.items, IsOneLine item := by
  constructor
  · intro hsame item hitem
    have hget : headers.get? item.1 = some item.2 := OrderedDict.get?_eq_some_iff.mpr hitem
    exact isOneLine_of_readHeaders ((hsame item.1).trans hget)
  · intro hlines name
    rw [readHeaders_of_isOneLine hheaders hlines]

/-- What was written is read back exactly if bytes are UTF-8 and headers are in one line each. -/
theorem isTransparent_iff (hbody : IsBody cls body) :
    IsTransparent cls body ↔ IsPlainBody body := by
  match cls, body, hbody with
  | .message, .text value, _ => exact iff_of_true (isTransparent_text value) trivial
  | .message, .bytes value, _ => exact isTransparent_bytes_iff value
  | .mhMessage, .headers value, hheaders =>
      rw [@isTransparent_iff_sameContent .mhMessage _ _ _ rfl rfl]
      exact sameContent_readHeaders_iff hheaders
  | .encodedMhMessage, .headers value, hheaders =>
      have hdecode : MessageClass.encodedMhMessage.decode
          (.text (Base64.encode (encodeUtf8 (value.items.flatMap headerLine)))) =
            .ok (.headers (readHeaders (value.items.flatMap headerLine))) := by
        rw [MessageClass.decode, decodeBase64_encode_text]
        rfl
      rw [isTransparent_iff_sameContent rfl hdecode]
      exact sameContent_readHeaders_iff hheaders

end

/-- A header whose value has a colon and white space in it. -/
def oneHeader : OrderedDict Text Text :=
  ⟨[("a".toList, "b: c".toList)], by decide⟩

theorem isTransparent_oneHeader : IsTransparent .encodedMhMessage (.headers oneHeader) := by
  have hbody : IsBody .encodedMhMessage (.headers oneHeader) :=
    List.forall_mem_singleton.mpr ⟨by decide, by decide, by decide⟩
  exact (isTransparent_iff hbody).mpr (List.forall_mem_singleton.mpr ⟨by decide, by decide⟩)

/-- A header whose value has another header in its second line. -/
def twoLines : OrderedDict Text Text :=
  ⟨[("a".toList, "b\nc: d".toList)], by decide⟩

/-- A byte that is no UTF-8 comes back in base64, and a second line as a header. -/
theorem not_isTransparent_undecoded :
    ¬IsTransparent .message (.bytes [0xFF]) ∧ ¬IsTransparent .mhMessage (.headers twoLines) := by
  constructor
  · intro htransparent
    obtain ⟨text, htext⟩ := (isTransparent_bytes_iff [0xFF]).mp htransparent
    have hdecode := Auth.decodeUtf8_encodeUtf8 text
    rw [htext, (by decide : Auth.decodeUtf8 [0xFF] = .error .unicodeDecodeError)] at hdecode
    cases hdecode
  · intro htransparent
    have hsame := (@isTransparent_iff_sameContent .mhMessage _ _ _ rfl rfl).mp htransparent
    exact absurd (hsame "c".toList) (by decide)

end Boto.SQS
