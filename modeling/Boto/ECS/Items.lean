import Boto.Handler
import Boto.Numerals
import Boto.Support.OrderedDict

/-!
# Items of a search and their pages

`ResponseGroup`, `Item` and `ItemSet` of `boto/ecs/item.py` with `get_response` and `item_search`
of the connection.  An item set is what the answers are parsed into and what is iterated: when its
objects are used up it asks for another page and goes on.
-/

namespace Boto.ECS

open Xml (Event Node)

/-! ## Response groups -/

/-- `ResponseGroup`.  The object `_curobj` is the one that the first name of the path was set to. -/
structure ResponseGroup where
  nodename : Option Text
  nodepath : List Text
  attributes : List (Text × (Text ⊕ ResponseGroup))
  xml : Text

/-- `text.replace(old, new)`, with a number of characters that were replaced already. -/
def replaceText (old new : Text) : ℕ → Text → Text
  | _, [] => []
  | skipped + 1, _ :: text => replaceText old new skipped text
  | 0, c :: text =>
      if old.isPrefixOf (c :: text) = true then
        new ++ replaceText old new (old.length - 1) text
      else c :: replaceText old new 0 text

namespace ResponseGroup

/-- `ResponseGroup(connection, nodename)`. -/
def init (nodename : Option Text) : ResponseGroup where
  nodename := nodename
  nodepath := []
  attributes := []
  xml := []

/-- `Item(connection)`. -/
def item : ResponseGroup :=
  init (some "Item".toList)

/-- `set`. -/
def set (name : Text) (value : Text ⊕ ResponseGroup) (self : ResponseGroup) : ResponseGroup :=
  { self with attributes := OrderedDict.setItems name value self.attributes }

/-- `to_xml`. -/
def toXml (self : ResponseGroup) : Text :=
  let nodename := self.nodename.getD "None".toList
  '<' :: nodename ++ '>' :: self.xml ++ "</".toList ++ nodename ++ ">".toList

/-- `_curobj` is changed. -/
def modifyCurobj (f : ResponseGroup → ResponseGroup) (self : ResponseGroup) : ResponseGroup :=
  { self with attributes := self.attributes.map fun entry =>
      if self.nodepath.head? = some entry.1 then (entry.1, entry.2.map id f)
      else entry }

/-- `startElement` of an object with a path of the given length. -/
def startAt : ℕ → Text → ResponseGroup → ResponseGroup
  | 0, name, self =>
      { self with
        xml := self.xml ++ '<' :: name ++ ">".toList
        nodepath := self.nodepath ++ [name] }.set name (.inr (init none))
  | depth + 1, name, self =>
      { self with
        xml := self.xml ++ '<' :: name ++ ">".toList
        nodepath := self.nodepath ++ [name] }.modifyCurobj (startAt depth name)

/-- `startElement`. -/
def startElement (name : Text) (self : ResponseGroup) : ResponseGroup :=
  startAt self.nodepath.length name self

/-- What `endElement` writes. -/
def closing (name value : Text) : Text :=
  replaceText "&amp;amp;".toList "&amp;".toList 0 (Xml.escape value) ++ "</".toList ++ name ++
    ">".toList

/-- Whether an attribute is missing or an empty text: `not curval`. -/
def isFalse (name : Text) (self : ResponseGroup) : Bool :=
  match self.attributes.lookup name with
  | none => true
  | some (.inl value) => value.isEmpty
  | some (.inr _) => false

/-- `endElement` of an object with a path of the given length. -/
def endAt : ℕ → Text → Text → ResponseGroup → ResponseGroup
  | 0, name, value, self => { self with xml := self.xml ++ closing name value }
  | 1, name, value, self =>
      let written := { self with xml := self.xml ++ closing name value }
      let valued := if value ≠ [] ∨ self.isFalse name = true then written.set name (.inl value)
        else written
      { valued with nodepath := self.nodepath.dropLast }
  | depth + 2, name, value, self =>
      let written := { self with xml := self.xml ++ closing name value }
      { written.modifyCurobj (endAt (depth + 1) name value) with
        nodepath := self.nodepath.dropLast }

/-- `endElement`. -/
def endElement (name value : Text) (self : ResponseGroup) : ResponseGroup :=
  endAt self.nodepath.length name value self

end ResponseGroup

/-! ## Item sets -/

/-- The parameters of a request. -/
abbrev Params := OrderedDict Text Text

/-- `ItemSet`.  A total that no answer gave is the number 0. -/
structure ItemSet where
  xml : Text
  objs : List ResponseGroup
  iter : Option ℕ
  page : ℕ
  action : Text
  params : Params
  curItem : Option ResponseGroup
  totalResults : Option Text
  totalPages : Option Text
  isValid : Bool
  errors : List (Text × Option Text)

namespace ItemSet

/-- `ItemSet(connection, action, params, page)`. -/
def init (action : Text) (params : Params) (page : ℕ) : ItemSet where
  xml := []
  objs := []
  iter := none
  page := page
  action := action
  params := params
  curItem := none
  totalResults := none
  totalPages := none
  isValid := false
  errors := []

/-- `self.errors[-1]['Message'] = value`. -/
def setMessage (value : Text) (self : ItemSet) : Except PyError ItemSet :=
  match self.errors.getLast? with
  | none => .error (.indexError "list index out of range")
  | some last => .ok { self with errors := self.errors.dropLast ++ [(last.1, some value)] }

/-- `startElement`. -/
def startElement (name : Text) (self : ItemSet) : ItemSet :=
  if name = "Item".toList then { self with curItem := some .item }
  else { self with curItem := self.curItem.map (ResponseGroup.startElement name) }

/-- `endElement`. -/
def endElement (name value : Text) (self : ItemSet) : Except PyError ItemSet :=
  if name = "TotalResults".toList then .ok { self with totalResults := some value }
  else if name = "TotalPages".toList then .ok { self with totalPages := some value }
  else if name = "IsValid".toList then
    .ok { self with isValid := decide (value = "True".toList) || self.isValid }
  else if name = "Code".toList then .ok { self with errors := self.errors ++ [(value, none)] }
  else if name = "Message".toList then self.setMessage value
  else if name = "Item".toList then
    match self.curItem with
    | none => .error (.attributeError "'NoneType' object has no attribute 'to_xml'")
    | some item =>
        .ok { self with
          objs := self.objs ++ [item], xml := self.xml ++ item.toXml, curItem := none }
  else .ok { self with curItem := self.curItem.map (ResponseGroup.endElement name value) }

/-- The methods of an item set, which reads all elements itself. -/
def methods : Nodes Unit ItemSet where
  startElement _ name self := (none, self.startElement name)
  endElement _ name value self := self.endElement name value

end ItemSet

/-! ## Requests -/

/-- An answer, with its body as it is parsed. -/
structure Response where
  status : ℕ
  reason : Text
  body : Node

/-- What a request raises; `BotoServerError` for a status and for a request that is not valid. -/
inductive ECSError
  | python (error : PyError)
  | botoServerError (response : Response)
  | notValid (status : ℕ) (message : Text)

/-- `'{Code}: {Message}'.format(**rs.errors[0])`. -/
def errorMessage (rs : ItemSet) : Except PyError Text :=
  match rs.errors with
  | [] => .error (.indexError "list index out of range")
  | (code, message) :: _ => .ok (code ++ ": ".toList ++ message.getD "None".toList)

/-- The parameters that `get_response` sends; page 0 is not sent. -/
def requestParams (action : Text) (params : Params) (page : ℕ) : Params :=
  let named := (params.set "Service".toList "AWSECommerceService".toList).set
    "Operation".toList action
  if page ≠ 0 then named.set "ItemPage".toList (decimal page) else named

section

variable (service : Params → Response)

/-- `get_response`. -/
def getResponse (action : Text) (params : Params) (page : ℕ) (itemSet : Option ItemSet) :
    Except ECSError ItemSet :=
  let params := requestParams action params page
  let response := service params
  if response.status ≠ 200 then .error (.botoServerError response)
  else
    let rs := match itemSet with
      | none => ItemSet.init action params page
      | some itemSet => { itemSet with params := params }
    match XmlHandler.parse ItemSet.methods () rs response.body.events with
    | .error e => .error (.python e)
    | .ok rs =>
        if rs.isValid = true then .ok rs
        else match errorMessage rs with
          | .error e => .error (.python e)
          | .ok message => .error (.notValid response.status message)

/-- `item_search`. -/
def itemSearch (searchIndex : Text) (params : Params) : Except ECSError ItemSet :=
  getResponse service "ItemSearch".toList (params.set "SearchIndex".toList searchIndex) 0 none

/-- `int(self.total_pages)`. -/
def ItemSet.lastPage (self : ItemSet) : Except PyError ℤ :=
  match self.totalPages with
  | none => .ok 0
  | some value => parseInt value

/-- `__next__`, which gives no item when it raises `StopIteration`.  Without fuel there is no
result. -/
def next : ℕ → ItemSet → Option (Except ECSError (Option ResponseGroup × ItemSet))
  | 0, _ => none
  | fuel + 1, self =>
      let index := self.iter.getD 0
      match self.objs[index]? with
      | some item => some (.ok (some item, { self with iter := some (index + 1) }))
      | none =>
          let self := { self with iter := none, objs := [] }
          match self.lastPage with
          | .error e => some (.error (.python e))
          | .ok lastPage =>
              if (self.page : ℤ) < lastPage then
                match getResponse service self.action self.params (self.page + 1)
                    (some { self with page := self.page + 1 }) with
                | .error e => some (.error e)
                | .ok self => next fuel self
              else some (.ok (none, self))

/-- A call of `__next__` comes to an end with a result. -/
def Gives (self : ItemSet) (result : Except ECSError (Option ResponseGroup × ItemSet)) : Prop :=
  ∃ fuel, ∀ more ≥ fuel, next service more self = some result

/-- Iterating yields some items and then stops. -/
inductive Yields : ItemSet → List ResponseGroup → Prop
  | stop {self stopped : ItemSet} (hnext : Gives service self (.ok (none, stopped))) : Yields self []
  | item {self rest : ItemSet} {item : ResponseGroup} {items : List ResponseGroup}
      (hnext : Gives service self (.ok (some item, rest))) (hrest : Yields rest items) :
      Yields self (item :: items)

end

/-! ## Searches -/

/-- The names that an item set looks for, and the one of the root. -/
def lookedFor : List Text :=
  ["root".toList, "Item".toList, "TotalResults".toList, "TotalPages".toList, "IsValid".toList,
    "Code".toList, "Message".toList]

/-- An event that is not of an element with such a name. -/
def IsPlain : Event → Prop
  | .startElement name => name ∉ lookedFor
  | .characters _ => True
  | .endElement name => name ∉ lookedFor

/-- Nodes without elements that an item set looks for. -/
structure Plain where
  nodes : List Node
  plain : ∀ event ∈ Node.eventsOf nodes, IsPlain event

/-- The answer to a request: the items of a page among the elements around them. -/
structure Answer where
  opening : Plain
  echo : Plain
  totalResults : Text
  gap : Plain
  items : List Plain
  closing : Plain

/-- The document of an answer. -/
def Answer.document (answer : Answer) (totalPages : ℕ) : Node :=
  .element "ItemSearchResponse".toList
    (answer.opening.nodes ++
      [.element "Items".toList
        (.element "Request".toList (.leaf "IsValid".toList "True".toList :: answer.echo.nodes) ::
          .leaf "TotalResults".toList answer.totalResults ::
          .leaf "TotalPages".toList (decimal totalPages) ::
          (answer.items.flatMap fun item =>
            answer.gap.nodes ++ [.element "Item".toList item.nodes]) ++ answer.closing.nodes)])

/-- A search result in pages, and how the service answers. -/
structure Search where
  pages : List (List Plain)
  answer : Params → Answer
  answer_first : ∀ params, params.get? "ItemPage".toList = none →
    (answer params).items = pages.head?.getD []
  answer_page : ∀ params page, params.get? "ItemPage".toList = some (decimal (page + 1)) →
    (answer params).items = pages[page]?.getD []

/-- The service with a search result. -/
def Search.service (search : Search) (params : Params) : Response :=
  ⟨200, "OK".toList, (search.answer params).document search.pages.length⟩

/-- What an event does to an item that is being read, with the character data before it. -/
def readEvent (state : Text × ResponseGroup) : Event → Text × ResponseGroup
  | .startElement name => ([], state.2.startElement name)
  | .characters c => (state.1 ++ [c], state.2)
  | .endElement name => ([], state.2.endElement name state.1)

/-- The item that is read from the content of its element alone. -/
def readItem (content : Plain) : ResponseGroup :=
  ((Node.eventsOf content.nodes).foldl readEvent ([], .item)).2

/-- The parameters of the first request of a search. -/
def searchParams (searchIndex : Text) (params : Params) : Params :=
  requestParams "ItemSearch".toList (params.set "SearchIndex".toList searchIndex) 0

/-- Iterating what a search returns yields every item of every page once, and stops. -/
def IsComplete (search : Search) (searchIndex : Text) (params : Params) : Prop :=
  ∃ itemSet, itemSearch search.service searchIndex params = .ok itemSet ∧
    Yields search.service itemSet (search.pages.flatten.map readItem)

/-! ## Reading an answer -/

section

open XmlHandler (run run_append run_start_of_none run_end)

variable {self : ItemSet} {name value : Text}

theorem startElement_of_ne (hname : name ≠ "Item".toList) : self.startElement name =
    { self with curItem := self.curItem.map (ResponseGroup.startElement name) } := by
  rw [ItemSet.startElement, if_neg hname]

theorem endElement_of_notMem (hname : name ∉ lookedFor) : self.endElement name value =
    .ok { self with curItem := self.curItem.map (ResponseGroup.endElement name value) } := by
  simp only [lookedFor, List.mem_cons, List.not_mem_nil, or_false, not_or] at hname
  obtain ⟨-, hitem, hresults, hpages, hvalid, hcode, hmessage⟩ := hname
  rw [ItemSet.endElement, if_neg hresults, if_neg hpages, if_neg hvalid, if_neg hcode,
    if_neg hmessage, if_neg hitem]

theorem start_of_none (hitem : self.curItem = none) (hname : name ≠ "Item".toList) :
    ItemSet.methods.startElement () name self = (none, self) := by
  obtain ⟨xml, objs, iter, page, action, params, curItem, results, pages, valid, errors⟩ := self
  subst hitem
  exact congrArg (Prod.mk none) (startElement_of_ne hname)

theorem end_of_none (hitem : self.curItem = none) (hname : name ∉ lookedFor) :
    ItemSet.methods.endElement () name value self = .ok self := by
  obtain ⟨xml, objs, iter, page, action, params, curItem, results, pages, valid, errors⟩ := self
  subst hitem
  exact endElement_of_notMem hname

theorem ne_of_notMem {looked : Text} (hname : name ∉ lookedFor) (hlooked : looked ∈ lookedFor) :
    name ≠ looked := by
  rintro rfl
  exact hname hlooked

theorem run_end_cons {rest : List (Text × Unit)} {text : Text} {closed : ItemSet}
    {events : List Event} (hend : ItemSet.methods.endElement () name text self = .ok closed) :
    run ItemSet.methods
        { nodes := ("root".toList, ()) :: rest, currentText := text, objects := self }
        (.endElement name :: events) =
      run ItemSet.methods
        { nodes := if "root".toList = name then rest else ("root".toList, ()) :: rest
          currentText := [], objects := closed } events := by
  have hevents : Event.endElement name :: events = [.endElement name] ++ events := rfl
  rw [hevents, run_append, run_end hend]
  rfl

/-- Plain events change nothing while no item is read. -/
theorem run_plain_none (hitem : self.curItem = none) (rest : List (Text × Unit)) (text : Text)
    {events : List Event} (hplain : ∀ event ∈ events, IsPlain event) :
    ∃ text', run ItemSet.methods
        { nodes := ("root".toList, ()) :: rest, currentText := text, objects := self } events =
      .ok { nodes := ("root".toList, ()) :: rest, currentText := text', objects := self } := by
  induction events generalizing text with
  | nil => exact ⟨text, rfl⟩
  | cons event events ih =>
      obtain ⟨hevent, hevents⟩ := List.forall_mem_cons.mp hplain
      cases event with
      | startElement name =>
          rw [run_start_of_none events (start_of_none hitem (ne_of_notMem hevent (by decide)))]
          exact ih [] hevents
      | characters c => exact ih (text ++ [c]) hevents
      | endElement name =>
          have hroot : "root".toList ≠ name := (ne_of_notMem hevent (by decide)).symm
          rw [run_end_cons (end_of_none hitem hevent), if_neg hroot]
          exact ih [] hevents

/-- Plain events go to the item that is being read. -/
theorem run_plain_some (rest : List (Text × Unit)) (state : Text × ResponseGroup)
    {events : List Event} (hplain : ∀ event ∈ events, IsPlain event) :
    run ItemSet.methods
        { nodes := ("root".toList, ()) :: rest, currentText := state.1
          objects := { self with curItem := some state.2 } } events =
      .ok { nodes := ("root".toList, ()) :: rest, currentText := (events.foldl readEvent state).1
            objects := { self with curItem := some (events.foldl readEvent state).2 } } := by
  induction events generalizing state with
  | nil => rfl
  | cons event events ih =>
      obtain ⟨hevent, hevents⟩ := List.forall_mem_cons.mp hplain
      rw [List.foldl_cons, ← ih (readEvent state event) hevents]
      cases event with
      | startElement name =>
          apply run_start_of_none
          have hname := ne_of_notMem hevent (by decide : "Item".toList ∈ lookedFor)
          exact congrArg (Prod.mk none) (startElement_of_ne hname)
      | characters c => rfl
      | endElement name =>
          have hroot : "root".toList ≠ name := (ne_of_notMem hevent (by decide)).symm
          rw [run_end_cons (endElement_of_notMem hevent), if_neg hroot]
          rfl

theorem reads_plain (hitem : self.curItem = none) (content : Plain) :
    Reads ItemSet.methods "root".toList () content.nodes self self :=
  fun rest text => run_plain_none hitem rest text content.plain

/-- An item set with another item. -/
def ItemSet.add (content : Plain) (self : ItemSet) : ItemSet :=
  { self with
    objs := self.objs ++ [readItem content], xml := self.xml ++ (readItem content).toXml
    curItem := none }

theorem reads_item (content : Plain) :
    Reads ItemSet.methods "root".toList () [.element "Item".toList content.nodes] self
      (self.add content) := by
  intro rest text
  have hstart : ItemSet.methods.startElement () "Item".toList self =
      (none, { self with curItem := some .item }) := by
    change (none, self.startElement "Item".toList) = _
    rw [ItemSet.startElement, if_pos rfl]
  have hend : ∀ value item, item = readItem content →
      ItemSet.methods.endElement () "Item".toList value { self with curItem := some item } =
        .ok (self.add content) := by
    rintro value _ rfl
    rfl
  refine ⟨[], ?_⟩
  rw [Node.eventsOf_element, run_start_of_none _ hstart, run_append,
    run_plain_some rest ([], .item) content.plain]
  exact run_end_cons (hend _ _ rfl)

/-- The items of an answer are added. -/
theorem reads_items (gap : Plain) (contents : List Plain) (hitem : self.curItem = none) :
    Reads ItemSet.methods "root".toList ()
      (contents.flatMap fun content => gap.nodes ++ [.element "Item".toList content.nodes]) self
      (contents.foldl (fun self content => self.add content) self) := by
  induction contents generalizing self with
  | nil => exact Reads.nil _ _ _ self
  | cons content contents ih =>
      have hfirst := (reads_plain hitem gap).append (@reads_item self content)
      have hrest := @ih (self.add content) rfl
      exact hfirst.append hrest

/-- An item set after an answer. -/
def ItemSet.read (answer : Answer) (totalPages : ℕ) (self : ItemSet) : ItemSet :=
  answer.items.foldl (fun self content => self.add content)
    { self with
      isValid := true, totalResults := some answer.totalResults
      totalPages := some (decimal totalPages) }

theorem foldl_add (contents : List Plain) (hitem : self.curItem = none) :
    contents.foldl (fun self content => self.add content) self =
      { self with
        objs := self.objs ++ contents.map readItem
        xml := self.xml ++ contents.flatMap fun content => (readItem content).toXml } := by
  induction contents generalizing self with
  | nil => rw [List.map_nil, List.flatMap_nil, List.append_nil, List.append_nil]; rfl
  | cons content contents ih =>
      rw [List.foldl_cons, @ih (self.add content) rfl, ItemSet.add, List.append_assoc,
        List.append_assoc, hitem]
      rfl

theorem read_eq (answer : Answer) (totalPages : ℕ) (hitem : self.curItem = none) :
    self.read answer totalPages =
      { self with
        isValid := true, totalResults := some answer.totalResults
        totalPages := some (decimal totalPages)
        objs := self.objs ++ answer.items.map readItem
        xml := self.xml ++ answer.items.flatMap fun content => (readItem content).toXml } :=
  foldl_add answer.items hitem

theorem reads_document (answer : Answer) (totalPages : ℕ) (hitem : self.curItem = none) :
    Reads ItemSet.methods "root".toList () [answer.document totalPages] self
      (self.read answer totalPages) := by
  have hvalid : Reads ItemSet.methods "root".toList ()
      [.leaf "IsValid".toList "True".toList] self { self with isValid := true } :=
    Reads.leaf (by decide) (start_of_none hitem (by decide)) rfl
  have hrequest : Reads ItemSet.methods "root".toList ()
      [.element "Request".toList (.leaf "IsValid".toList "True".toList :: answer.echo.nodes)] self
      { self with isValid := true } :=
    Reads.skipped (by decide) (start_of_none hitem (by decide))
      (hvalid.append (@reads_plain { self with isValid := true } hitem answer.echo)) fun _ => end_of_none hitem (by decide)
  have hresults : Reads ItemSet.methods "root".toList ()
      [.leaf "TotalResults".toList answer.totalResults] { self with isValid := true }
      { self with isValid := true, totalResults := some answer.totalResults } :=
    Reads.leaf (by decide) (start_of_none hitem (by decide)) rfl
  have hpages : Reads ItemSet.methods "root".toList ()
      [.leaf "TotalPages".toList (decimal totalPages)]
      { self with isValid := true, totalResults := some answer.totalResults }
      { self with
        isValid := true, totalResults := some answer.totalResults
        totalPages := some (decimal totalPages) } :=
    Reads.leaf (by decide) (start_of_none hitem (by decide)) rfl
  have hread : (self.read answer totalPages).curItem = none := by
    rw [read_eq answer totalPages hitem]
    exact hitem
  have hitems : Reads ItemSet.methods "root".toList () _ _ (self.read answer totalPages) :=
    reads_items answer.gap answer.items hitem
  have hset : Reads ItemSet.methods "root".toList () [.element "Items".toList _] self
      (self.read answer totalPages) :=
    Reads.skipped (by decide) (start_of_none hitem (by decide))
      (hrequest.append (hresults.append (hpages.append
        (hitems.append (reads_plain hread answer.closing)))))
      fun _ => end_of_none hread (by decide)
  have hcontent := (reads_plain hitem answer.opening).append hset
  exact Reads.skipped (by decide) (start_of_none hitem (by decide)) hcontent
    fun _ => end_of_none hread (by decide)

end

/-! ## Iterating -/

section

variable {search : Search} {self fresh : ItemSet} {service : Params → Response} {lastPage : ℤ}

theorem get?_requestParams (action : Text) (params : Params) (page : ℕ) :
    (requestParams action params (page + 1)).get? "ItemPage".toList =
      some (decimal (page + 1)) := by
  rw [requestParams, if_pos (Nat.succ_ne_zero page), OrderedDict.get?_set, if_pos rfl]

/-- An item set after a request with some parameters was answered into it. -/
structure HasRead (search : Search) (params : Params) (old fresh : ItemSet) : Prop where
  objs : fresh.objs = old.objs ++ (search.answer params).items.map readItem
  iter : fresh.iter = old.iter
  page : fresh.page = old.page
  curItem : fresh.curItem = none
  totalPages : fresh.totalPages = some (decimal search.pages.length)
  isValid : fresh.isValid = true

theorem hasRead_read (params : Params) (hitem : self.curItem = none) :
    HasRead search params self (self.read (search.answer params) search.pages.length) := by
  rw [read_eq _ _ hitem]
  exact ⟨rfl, rfl, rfl, hitem, rfl, rfl⟩

/-- A request reads the answer into the item set. -/
theorem getResponse_some (action : Text) (params : Params) (page : ℕ)
    (hitem : self.curItem = none) :
    ∃ fresh, getResponse search.service action params page (some self) = .ok fresh ∧
      HasRead search (requestParams action params page) self fresh := by
  have hparse := (@reads_document { self with params := requestParams action params page }
    (search.answer (requestParams action params page)) search.pages.length hitem).parse
  have hread := @hasRead_read search { self with params := requestParams action params page }
    (requestParams action params page) hitem
  refine ⟨_, ?_, ⟨hread.objs, hread.iter, hread.page, hread.curItem, hread.totalPages,
    hread.isValid⟩⟩
  rw [getResponse, Search.service]
  dsimp only
  rw [if_neg (by decide), hparse]
  dsimp only
  rw [hread.isValid, if_pos rfl]

theorem getResponse_none (action : Text) (params : Params) (page : ℕ) :
    ∃ fresh, getResponse search.service action params page none = .ok fresh ∧
      HasRead search (requestParams action params page) (.init action params page) fresh :=
  @getResponse_some search (.init action params page) action params page rfl

theorem gives_item {item : ResponseGroup} (hitem : self.objs[self.iter.getD 0]? = some item) :
    Gives service self (.ok (some item, { self with iter := some (self.iter.getD 0 + 1) })) := by
  refine ⟨1, fun more hmore => ?_⟩
  obtain ⟨fuel, rfl⟩ := Nat.exists_eq_add_of_le' hmore
  rw [next]
  dsimp only
  rw [hitem]

theorem gives_stop (hused : self.objs[self.iter.getD 0]? = none)
    (hlast : self.lastPage = .ok lastPage) (hpage : ¬(self.page : ℤ) < lastPage) :
    Gives service self (.ok (none, { self with iter := none, objs := [] })) := by
  have hlast' : { self with iter := none, objs := [] }.lastPage = .ok lastPage := hlast
  refine ⟨1, fun more hmore => ?_⟩
  obtain ⟨fuel, rfl⟩ := Nat.exists_eq_add_of_le' hmore
  rw [next]
  dsimp only
  rw [hused]
  dsimp only
  rw [hlast']
  dsimp only
  rw [if_neg hpage]

/-- When the objects are used up, the next page is read and the iteration goes on with it. -/
theorem gives_page {result : Except ECSError (Option ResponseGroup × ItemSet)}
    (hused : self.objs[self.iter.getD 0]? = none)
    (hlast : self.lastPage = .ok lastPage) (hpage : (self.page : ℤ) < lastPage)
    (hresponse : getResponse service self.action self.params (self.page + 1)
      (some { self with iter := none, objs := [], page := self.page + 1 }) = .ok fresh)
    (hgives : Gives service fresh result) : Gives service self result := by
  obtain ⟨enough, hgives⟩ := hgives
  have hlast' : { self with iter := none, objs := [] }.lastPage = .ok lastPage := hlast
  refine ⟨enough + 1, fun more hmore => ?_⟩
  obtain ⟨fuel, rfl⟩ := Nat.exists_eq_add_of_le' hmore
  rw [← Nat.add_assoc, next]
  dsimp only
  rw [hused]
  dsimp only
  rw [hlast']
  dsimp only
  rw [if_pos hpage, hresponse]
  exact hgives (fuel + enough) (Nat.le_add_left enough fuel)

theorem Yields.page {items : List ResponseGroup} (hused : self.objs[self.iter.getD 0]? = none)
    (hlast : self.lastPage = .ok lastPage) (hpage : (self.page : ℤ) < lastPage)
    (hresponse : getResponse service self.action self.params (self.page + 1)
      (some { self with iter := none, objs := [], page := self.page + 1 }) = .ok fresh)
    (hyields : Yields service fresh items) : Yields service self items := by
  cases hyields with
  | stop hnext => exact .stop (gives_page hused hlast hpage hresponse hnext)
  | item hnext hrest => exact .item (gives_page hused hlast hpage hresponse hnext) hrest

/-- The objects that are left are yielded before anything else. -/
theorem yields_objs {left rest : List ResponseGroup}
    (hleft : self.objs.drop (self.iter.getD 0) = left)
    (hrest : ∀ iter, self.objs[iter.getD 0]? = none →
      Yields service { self with iter := iter } rest) :
    Yields service self (left ++ rest) := by
  induction left generalizing self with
  | nil =>
      apply hrest self.iter
      exact List.getElem?_eq_none (List.drop_eq_nil_iff.mp hleft)
  | cons item left ih =>
      have hitem : self.objs[self.iter.getD 0]? = some item := by
        rw [← List.head?_drop, hleft]
        rfl
      apply Yields.item (gives_item hitem)
      apply ih
      · change self.objs.drop (self.iter.getD 0 + 1) = left
        rw [← List.tail_drop, hleft]
        rfl
      · exact hrest

/-- The pages after the one of an item set are yielded after the objects that are left. -/
theorem yields_pages {pages : List (List Plain)} (hpages : search.pages.drop self.page = pages)
    (hitem : self.curItem = none)
    (htotal : self.totalPages = some (decimal search.pages.length)) :
    Yields search.service self
      (self.objs.drop (self.iter.getD 0) ++ pages.flatten.map readItem) := by
  have hlast : self.lastPage = .ok (search.pages.length : ℤ) := by
    rw [ItemSet.lastPage, htotal]
    exact parseInt_decimal _
  induction pages generalizing self with
  | nil =>
      apply yields_objs rfl
      intro iter hused
      have hlength := List.drop_eq_nil_iff.mp hpages
      have hend : ¬(self.page : ℤ) < search.pages.length := Int.not_lt.mpr (Int.ofNat_le.mpr hlength)
      exact .stop (@gives_stop { self with iter := iter } _ _ hused hlast hend)
  | cons page pages ih =>
      apply yields_objs rfl
      intro iter hused
      have hpage : search.pages[self.page]? = some page := by
        rw [← List.head?_drop, hpages]
        rfl
      have hlt : (self.page : ℤ) < search.pages.length :=
        Int.ofNat_lt.mpr (List.getElem?_eq_some_iff.mp hpage).1
      obtain ⟨fresh, hresponse, hread⟩ := @getResponse_some search
        { self with iter := none, objs := [], page := self.page + 1 } self.action self.params
        (self.page + 1) hitem
      have hobjs : fresh.objs = page.map readItem := by
        rw [hread.objs, search.answer_page _ _ (get?_requestParams _ _ _), hpage]
        rfl
      have hdrop : search.pages.drop fresh.page = pages := by
        rw [hread.page, ← List.tail_drop, hpages]
        rfl
      have htotal' := hread.totalPages
      have hlast' : fresh.lastPage = .ok (search.pages.length : ℤ) := by
        rw [ItemSet.lastPage, htotal']
        exact parseInt_decimal _
      have hrest := ih hdrop hread.curItem htotal' hlast'
      rw [hread.iter, hobjs] at hrest
      refine @Yields.page { self with iter := iter } _ _ _ _ hused hlast hlt hresponse ?_
      rw [List.flatten_cons, List.map_append]
      exact hrest

/-- What is iterated: the items of the answer to the first request and then all pages. -/
theorem yields_itemSearch (search : Search) (searchIndex : Text) (params : Params) :
    ∃ itemSet, itemSearch search.service searchIndex params = .ok itemSet ∧
      Yields search.service itemSet
        ((search.answer (searchParams searchIndex params)).items.map readItem ++
          search.pages.flatten.map readItem) := by
  obtain ⟨itemSet, hresponse, hread⟩ := @getResponse_none search "ItemSearch".toList
    (params.set "SearchIndex".toList searchIndex) 0
  have hpages : search.pages.drop itemSet.page = search.pages := by
    rw [hread.page]
    rfl
  have hyields := yields_pages hpages hread.curItem hread.totalPages
  rw [hread.iter, hread.objs] at hyields
  exact ⟨itemSet, hresponse, hyields⟩

/-- Calls with the same item set give the same. -/
theorem Gives.unique {result result' : Except ECSError (Option ResponseGroup × ItemSet)}
    (hgives : Gives service self result) (hgives' : Gives service self result') :
    result = result' := by
  obtain ⟨enough, hgives⟩ := hgives
  obtain ⟨enough', hgives'⟩ := hgives'
  have hmore := hgives (max enough enough') (Nat.le_max_left _ _)
  rw [hgives' _ (Nat.le_max_right _ _)] at hmore
  exact (Option.some.inj hmore).symm

theorem Yields.unique {items items' : List ResponseGroup} (hyields : Yields service self items)
    (hyields' : Yields service self items') : items = items' := by
  induction hyields generalizing items' with
  | stop hnext =>
      cases hyields' with
      | stop hnext' => rfl
      | item hnext' hrest' => cases hnext.unique hnext'
  | item hnext hrest ih =>
      cases hyields' with
      | stop hnext' => cases hnext.unique hnext'
      | item hnext' hrest' =>
          cases hnext.unique hnext'
          rw [ih hrest']

/-- Iterating is complete just if the first request is answered without items: they come again
with page 1. -/
theorem isComplete_iff (search : Search) (searchIndex : Text) (params : Params) :
    IsComplete search searchIndex params ↔
      (search.answer (searchParams searchIndex params)).items = [] := by
  obtain ⟨itemSet, hsearch, hyields⟩ := yields_itemSearch search searchIndex params
  constructor
  · rintro ⟨itemSet', hsearch', hyields'⟩
    cases hsearch.symm.trans hsearch'
    have heq := hyields.unique hyields'
    rwa [List.append_left_eq_self, List.map_eq_nil_iff] at heq
  · intro hfirst
    rw [hfirst] at hyields
    exact ⟨itemSet, hsearch, hyields⟩

end

/-! ## A service -/

/-- The page that some parameters ask for. -/
def pageOf (pages : List (List Plain)) (params : Params) : List Plain :=
  match params.get? "ItemPage".toList with
  | none => pages.head?.getD []
  | some value =>
      match parseInt value with
      | .ok page => pages[page.toNat - 1]?.getD []
      | .error _ => []

/-- Nothing between elements. -/
def Plain.none : Plain :=
  ⟨[], fun _ hevent => nomatch hevent⟩

/-- A search with some pages. -/
def Search.ofPages (pages : List (List Plain)) : Search where
  pages := pages
  answer params := ⟨.none, .none, decimal pages.flatten.length, .none, pageOf pages params, .none⟩
  answer_first params hpage := by
    dsimp only
    rw [pageOf, hpage]
  answer_page params page hpage := by
    dsimp only
    rw [pageOf, hpage]
    dsimp only
    rw [parseInt_decimal]
    rfl

/-- The item of a single page comes twice. -/
theorem not_forall_isComplete : ¬∀ (search : Search) (searchIndex : Text) (params : Params),
    IsComplete search searchIndex params := by
  intro hall
  obtain ⟨itemSet, hsearch, hyields⟩ := hall (.ofPages [[.none]]) "Books".toList .empty
  obtain ⟨itemSet', hsearch', hyields'⟩ :=
    yields_itemSearch (.ofPages [[.none]]) "Books".toList .empty
  cases hsearch.symm.trans hsearch'
  have hlength := congrArg List.length (hyields.unique hyields')
  revert hlength
  rw [List.length_append, List.length_map, List.length_map]
  decide

end Boto.ECS
