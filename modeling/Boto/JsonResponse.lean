import Boto.Python
import Boto.Support.ListResults
import Boto.Support.OrderedDict
import Boto.Support.Xml
import Boto.TextMethods
import Mathlib.Data.List.TakeWhile

/-!
# Responses as nested dictionaries

`boto/jsonresponse.py` reads an XML document into dictionaries and lists.  Its objects refer to
each other and share the stack of the names that are open, so they live in a heap.
-/

namespace Boto.JsonResponse

open Xml (Event Node nodeName elementNames contentOf)

/-! ## Names and texts -/

/-- The white space of `str.strip`. -/
def isWhitespace (c : Char) : Bool :=
  (9 ≤ c.toNat && c.toNat ≤ 13) || (28 ≤ c.toNat && c.toNat ≤ 32) || c.toNat = 0x85 ||
    c.toNat = 0xa0 || c.toNat = 0x1680 || (0x2000 ≤ c.toNat && c.toNat ≤ 0x200a) ||
    c.toNat = 0x2028 || c.toNat = 0x2029 || c.toNat = 0x202f || c.toNat = 0x205f ||
    c.toNat = 0x3000

/-- `value.strip()`. -/
def strip (value : Text) : Text :=
  ((value.dropWhile isWhitespace).reverse.dropWhile isWhitespace).reverse

/-- `_first_cap_regex.sub(r'\1_\2', name)`.  The flag tells that the letters of a match may go
on. -/
def subFirstCap : Bool → Text → Text
  | _, [] => []
  | inside, c :: rest =>
      if inside = true ∧ c.isLower = true then c :: subFirstCap true rest
      else
        match rest with
        | upper :: letter :: rest' =>
            if c ≠ '\n' ∧ upper.isUpper = true ∧ letter.isLower = true then
              c :: '_' :: upper :: letter :: subFirstCap true rest'
            else c :: subFirstCap false (upper :: letter :: rest')
        | [d] => [c, d]
        | [] => [c]

/-- `_number_cap_regex.sub(r'\1_\2', name)`. -/
def subNumberCap : Text → Text
  | c :: d :: rest =>
      if c.isLower = true ∧ d.isDigit = true then c :: '_' :: d :: subNumberCap rest
      else c :: subNumberCap (d :: rest)
  | name => name

/-- `_end_cap_regex.sub(r'\1_\2', name)`. -/
def subEndCap : Text → Text
  | c :: d :: rest =>
      if (c.isLower = true ∨ c.isDigit = true) ∧ d.isUpper = true then
        c :: '_' :: d :: subEndCap rest
      else c :: subEndCap (d :: rest)
  | name => name

/-- `pythonize_name`. -/
def pythonizeName (name : Text) : Text :=
  lower (subEndCap (subNumberCap (subFirstCap false name)))

/-- A marker, or a list or tuple of them. -/
inductive Markers
  | one (marker : Text)
  | several (markers : List Text)

/-- `mklist`. -/
def mklist : Markers → List Text
  | .one marker => [marker]
  | .several markers => markers

/-- The arguments of an `Element` that its objects hand on to each other. -/
structure Settings where
  listMarker : Markers
  itemMarker : Markers
  pythonizeName : Bool

namespace Settings

/-- `get_name`. -/
def getName (self : Settings) (name : Text) : Text :=
  if self.pythonizeName = true then JsonResponse.pythonizeName name else name

/-- Whether a name ends in a list marker. -/
def isList (self : Settings) (name : Text) : Bool :=
  (mklist self.listMarker).any fun marker => marker.isSuffixOf name

/-- Whether a name is an item marker. -/
def isItem (self : Settings) (name : Text) : Bool :=
  (mklist self.itemMarker).contains name

end Settings

/-! ## Objects -/

/-- A value in a dictionary or a list. -/
inductive Value
  | text (value : Text)
  | object (ref : ℕ)

/-- An `Element` with its entries, its stack and its parent, or a `ListElement` with its name, its
items and the attributes that reading sets. -/
inductive Object
  | element (entries : OrderedDict Text Value) (stack : ℕ) (parent : Option ℕ)
  | list (elementName : Text) (items : List Value) (attributes : OrderedDict Text Value)

/-- The objects, and the stacks with the last name first. -/
structure Heap where
  objects : List Object
  nameStacks : List (List Text)

namespace Heap

/-- A stack. -/
def stackAt (self : Heap) (stack : ℕ) : List Text :=
  self.nameStacks.getD stack []

/-- The heap with other names on a stack. -/
def setStack (self : Heap) (stack : ℕ) (names : List Text) : Heap :=
  { self with nameStacks := self.nameStacks.set stack names }

/-- The heap with another object in the place of one. -/
def setObject (self : Heap) (ref : ℕ) (object : Object) : Heap :=
  { self with objects := self.objects.set ref object }

/-- The heap with one more object. -/
def add (self : Heap) (object : Object) : Heap :=
  { self with objects := self.objects ++ [object] }

/-- Whether a value is an `Element` without entries. -/
def isEmptyElement (self : Heap) : Value → Bool
  | .text _ => false
  | .object ref =>
      match self.objects[ref]? with
      | some (.element entries _ _) => entries.items.isEmpty
      | _ => false

end Heap

/-- What `startElement` returns: an object, or one with a name for it. -/
inductive Given
  | object (ref : ℕ)
  | pair (name : Text) (ref : ℕ)

section

variable (settings : Settings)

/-- `Element.startElement`. -/
def elementStart (self : ℕ) (entries : OrderedDict Text Value) (stack : ℕ) (parent : Option ℕ)
    (name : Text) (heap : Heap) : Option Given × Heap :=
  let names := name :: heap.stackAt stack
  let heap := heap.setStack stack names
  let new := heap.objects.length
  if settings.isList name = true then
    (some (.object new), (heap.add (.list name [] .empty)).setObject self
      (.element (entries.set (settings.getName name) (.object new)) stack parent))
  else
    match names with
    | elementName :: _ =>
        (some (.pair elementName new), (heap.add (.element .empty stack (some self))).setObject self
          (.element (entries.set (settings.getName elementName) (.object new)) stack parent))
    | [] => (none, heap)

/-- `ListElement.startElement`. -/
def listStart (self : ℕ) (elementName : Text) (items : List Value)
    (attributes : OrderedDict Text Value) (name : Text) (heap : Heap) : Option Given × Heap :=
  let new := heap.objects.length
  if settings.isList name = true then
    (some (.object new), (heap.add (.list name [] .empty)).setObject self
      (.list elementName items (attributes.set (settings.getName name) (.object new))))
  else if settings.isItem name = true then
    let stack := heap.nameStacks.length
    let heap := { heap with nameStacks := heap.nameStacks ++ [[]] }
    (some (.object new), (heap.add (.element .empty stack (some self))).setObject self
      (.list elementName (items ++ [.object new]) attributes))
  else (none, heap)

/-- `startElement` of an object. -/
def startElement (self : ℕ) (name : Text) (heap : Heap) : Option Given × Heap :=
  match heap.objects[self]? with
  | some (.element entries stack parent) =>
      elementStart settings self entries stack parent name heap
  | some (.list elementName items attributes) =>
      listStart settings self elementName items attributes name heap
  | none => (none, heap)

/-- `Element.endElement`. -/
def elementEnd (stack : ℕ) (parent : Option ℕ) (name value : Text) (heap : Heap) : Heap :=
  let heap := heap.setStack stack (heap.stackAt stack).tail
  let value := strip value
  if value = [] then heap
  else
    match parent with
    | none => heap
    | some above =>
        match heap.objects[above]? with
        | some (.element entries stack parent) => heap.setObject above
            (.element (entries.set (settings.getName name) (.text value)) stack parent)
        | some (.list elementName items attributes) => heap.setObject above
            (.list elementName (items ++ [.text value]) attributes)
        | none => heap

/-- The items of a list without its empty elements.  What `remove` removes is the first item that
is equal to an empty dictionary. -/
def removeEmpty (heap : Heap) (items : List Value) : List Value :=
  let empty := items.filter heap.isEmptyElement
  empty.foldl (fun items _ => items.eraseP heap.isEmptyElement) items

/-- `ListElement.endElement`. -/
def listEnd (self : ℕ) (elementName : Text) (items : List Value)
    (attributes : OrderedDict Text Value) (name value : Text) (heap : Heap) : Heap :=
  if name = elementName then
    if 0 < items.length then
      heap.setObject self (.list elementName (removeEmpty heap items) attributes)
    else heap
  else
    heap.setObject self
      (.list elementName items (attributes.set (settings.getName name) (.text value)))

/-- `endElement` of an object. -/
def endElement (self : ℕ) (name value : Text) (heap : Heap) : Heap :=
  match heap.objects[self]? with
  | some (.element _ stack parent) => elementEnd settings stack parent name value heap
  | some (.list elementName items attributes) =>
      listEnd settings self elementName items attributes name value heap
  | none => heap

end

/-! ## The handler -/

/-- `XmlHandler`, with the last of the nodes first. -/
structure XmlHandler where
  nodes : List (Text × ℕ)
  currentText : Text
  heap : Heap

namespace XmlHandler

variable (settings : Settings)

/-- What an event does. -/
def step (self : XmlHandler) : Event → Except PyError XmlHandler
  | .startElement name =>
      match self.nodes with
      | [] => .error (.indexError "list index out of range")
      | top :: _ =>
          match JsonResponse.startElement settings top.2 name self.heap with
          | (none, heap) => .ok ⟨self.nodes, [], heap⟩
          | (some (.pair tag new), heap) => .ok ⟨(tag, new) :: self.nodes, [], heap⟩
          | (some (.object new), heap) => .ok ⟨(name, new) :: self.nodes, [], heap⟩
  | .characters c => .ok { self with currentText := self.currentText ++ [c] }
  | .endElement name =>
      match self.nodes with
      | [] => .error (.indexError "list index out of range")
      | top :: rest =>
          .ok ⟨if top.1 = name then rest else self.nodes, [],
            JsonResponse.endElement settings top.2 name self.currentText self.heap⟩

/-- What some events do. -/
def run (self : XmlHandler) (events : List Event) : Except PyError XmlHandler :=
  events.foldlM (step settings) self

/-- The objects after a document was read into the `Element` with the reference 0. -/
def parse (events : List Event) : Except PyError Heap :=
  (run settings ⟨[("root".toList, 0)], [], ⟨[.element .empty 0 none], [[]]⟩⟩ events).map heap

end XmlHandler

/-! ## The reference translation -/

/-- What becomes of an element: a text, a list, or a dictionary. -/
inductive Translation
  | text (value : Text)
  | list (items : List Translation)
  | element (entries : List (Text × Translation))

/-- Whether an item has neither elements nor text. -/
def isEmptyItem : Node → Bool
  | .text _ => true
  | .element _ children => (elementNames children).isEmpty && (strip (contentOf children)).isEmpty

/-- What becomes of an element that is not a list, from its entries and its character data. -/
def Translation.ofContent (content : Text) : List (Text × Translation) → Translation
  | [] => if strip content = [] then .element [] else .text (strip content)
  | entries => .element entries

section

variable (settings : Settings)

mutual

/-- What becomes of a node. -/
def translate : Node → Translation
  | .text content => .text (strip content)
  | .element name children =>
      if settings.isList name = true then .list (translateItems children)
      else .ofContent (contentOf children) (translateEntries children)

/-- The entries that nodes make in a dictionary. -/
def translateEntries : List Node → List (Text × Translation)
  | [] => []
  | node :: nodes =>
      ((nodeName node).map fun name => (settings.getName name, translate node)).toList ++
        translateEntries nodes

/-- The items that nodes make in a list. -/
def translateItems : List Node → List Translation
  | [] => []
  | node :: nodes =>
      (if isEmptyItem node = true then [] else [translate node]) ++ translateItems nodes

end

/-- The trees without mixed content whose names fit the settings. -/
inductive Conforms : Node → Prop
  | text (content : Text) : Conforms (.text content)
  | element (name : Text) (children : List Node)
      (hplain : elementNames children = [] ∨
        ∀ content, .text content ∈ children → strip content = [])
      (hlist : settings.isList name = true →
        (∀ content, .text content ∈ children → strip content = []) ∧
          ∀ name ∈ elementNames children, settings.isItem name = true)
      (hdistinct : settings.isList name = false →
        ((elementNames children).map settings.getName).Nodup)
      (hchildren : ∀ child ∈ children, Conforms child) : Conforms (.element name children)

end

/-- A document for some settings, by which no item is a list. -/
structure Document (settings : Settings) where
  name : Text
  children : List Node
  conforms : Conforms settings (.element name children)
  items : ∀ name, settings.isItem name = true → settings.isList name = false

/-- The node of a document. -/
def Document.node {settings : Settings} (self : Document settings) : Node :=
  .element self.name self.children

/-- A value is what something is translated to, in objects with no reference less than some
number. -/
inductive Holds (heap : Heap) (least : ℕ) : Value → Translation → Prop
  | text (value : Text) : Holds heap least (.text value) (.text value)
  | element {ref stack : ℕ} {parent : Option ℕ} {entries : OrderedDict Text Value}
      {translated : List (Text × Translation)} (hleast : least ≤ ref)
      (hget : heap.objects[ref]? = some (.element entries stack parent))
      (hnames : entries.keys = translated.map Prod.fst)
      (hvalues : ∀ pair ∈ entries.items.zip translated, Holds heap least pair.1.2 pair.2.2) :
      Holds heap least (.object ref) (.element translated)
  | list {ref : ℕ} {elementName : Text} {items : List Value}
      {attributes : OrderedDict Text Value} {translated : List Translation} (hleast : least ≤ ref)
      (hget : heap.objects[ref]? = some (.list elementName items attributes))
      (hlength : items.length = translated.length)
      (hitems : ∀ pair ∈ items.zip translated, Holds heap least pair.1 pair.2) :
      Holds heap least (.object ref) (.list translated)

/-- Reading a document gives what it is translated to, under its name, and nothing else. -/
def IsTranslated (settings : Settings) (document : Document settings) : Prop :=
  ∃ heap, XmlHandler.parse settings document.node.events = .ok heap ∧
    ∀ translation, Holds heap 0 (.object 0) translation ↔ translation =
      .element [(settings.getName document.name, translate settings document.node)]

/-! ## The heap -/

namespace Heap

variable {heap after last : Heap} {ref top : ℕ} {object : Object}

theorem getElem?_setObject_self (hlt : ref < heap.objects.length) :
    (heap.setObject ref object).objects[ref]? = some object :=
  List.getElem?_set_self hlt

theorem getElem?_setObject_ne {other : ℕ} (hne : other ≠ ref) :
    (heap.setObject ref object).objects[other]? = heap.objects[other]? :=
  List.getElem?_set_ne hne.symm

theorem length_setObject : (heap.setObject ref object).objects.length = heap.objects.length :=
  List.length_set

theorem lt_of_getElem? (hget : heap.objects[ref]? = some object) : ref < heap.objects.length :=
  (List.getElem?_eq_some_iff.mp hget).1

/-- Later objects, with no change of an earlier one other than the one on top. -/
structure Frame (heap : Heap) (top : ℕ) (after : Heap) : Prop where
  length : heap.objects.length ≤ after.objects.length
  kept : ∀ ref < heap.objects.length, ref ≠ top → after.objects[ref]? = heap.objects[ref]?

theorem Frame.refl (heap : Heap) (top : ℕ) : Frame heap top heap :=
  ⟨le_rfl, fun _ _ _ => rfl⟩

theorem Frame.trans (hfirst : Frame heap top after) (hlast : Frame after top last) :
    Frame heap top last := by
  refine ⟨hfirst.length.trans hlast.length, fun ref hlt hne => ?_⟩
  rw [hlast.kept ref (hlt.trans_le hfirst.length) hne, hfirst.kept ref hlt hne]

theorem Frame.setObject (heap : Heap) (ref : ℕ) (object : Object) :
    Frame heap ref (heap.setObject ref object) :=
  ⟨length_setObject.ge, fun _ _ hne => getElem?_setObject_ne hne⟩

/-- What happens to a new object and the one on top happens to the one on top. -/
theorem Frame.inner (hstart : Frame heap top after) {new : ℕ} (hnew : heap.objects.length ≤ new)
    (hinner : Frame after new last) : Frame heap top last := by
  refine ⟨hstart.length.trans hinner.length, fun ref hlt hne => ?_⟩
  rw [hinner.kept ref (hlt.trans_le hstart.length) (hlt.trans_le hnew).ne, hstart.kept ref hlt hne]

/-- Nothing but the objects matters. -/
theorem Frame.of_objects (hframe : Frame heap top after) (hobjects : last.objects = after.objects) :
    Frame heap top last := by
  refine ⟨?_, ?_⟩
  · rw [hobjects]
    exact hframe.length
  · rw [hobjects]
    exact hframe.kept

/-- An object other than the one on top is still there. -/
theorem Frame.get (hframe : Frame heap top after) (hget : heap.objects[ref]? = some object)
    (hne : ref ≠ top) : after.objects[ref]? = some object := by
  rw [hframe.kept ref (lt_of_getElem? hget) hne, hget]

end Heap

open Heap

/-- A translation stays where objects of its references do. -/
theorem Holds.mono {heap after : Heap} {least least' : ℕ} {value : Value}
    {translation : Translation} (hholds : Holds heap least value translation)
    (hle : least' ≤ least)
    (hkept : ∀ ref object, least ≤ ref → heap.objects[ref]? = some object →
      after.objects[ref]? = some object) : Holds after least' value translation := by
  induction hholds with
  | text value => exact .text value
  | element hleast hget hnames _ ih =>
      exact .element (hle.trans hleast) (hkept _ _ hleast hget) hnames ih
  | list hleast hget hlength _ ih =>
      exact .list (hle.trans hleast) (hkept _ _ hleast hget) hlength ih

theorem Holds.frame {heap after : Heap} {least top : ℕ} {value : Value}
    {translation : Translation} (hholds : Holds heap least value translation)
    (hframe : Frame heap top after) (htop : top < least) : Holds after least value translation :=
  hholds.mono le_rfl fun _ _ hleast hget => hframe.get hget (htop.trans_le hleast).ne'

/-- A value is what one thing only is translated to. -/
theorem Holds.unique {heap : Heap} {least : ℕ} {value : Value} {translation : Translation}
    (hholds : Holds heap least value translation) {other : Translation}
    (hother : Holds heap least value other) : translation = other := by
  induction hholds generalizing other with
  | text value =>
      cases hother
      rfl
  | @element ref stack parent entries translated hleast hget hnames hvalues ih =>
      cases hother with
      | @element _ _ _ _ translated' _ hget' hnames' hvalues' =>
          rw [hget] at hget'
          cases hget'
          have hlengths : ∀ {translated : List (Text × Translation)},
              entries.keys = translated.map Prod.fst → entries.items.length = translated.length := by
            intro translated hnames
            have hlength := congrArg List.length hnames
            rwa [OrderedDict.keys, List.length_map, List.length_map] at hlength
          have hvalue : translated.map Prod.snd = translated'.map Prod.snd := by
            have hlength : entries.items.length = (translated.map Prod.snd).length := by
              rw [List.length_map, hlengths hnames]
            have hlength' : entries.items.length = (translated'.map Prod.snd).length := by
              rw [List.length_map, hlengths hnames']
            refine ListResults.eq_of_forall_zip hlength hlength'
              (r := fun entry value => Holds heap least entry.2 value) ?_ ?_
            · rw [List.zip_map_right]
              exact List.forall_mem_map.mpr fun pair hpair z hz => ih pair hpair hz
            · rw [List.zip_map_right]
              exact List.forall_mem_map.mpr hvalues'
          rw [← ListResults.zip_map_fst_snd translated, ← hnames, hvalue, hnames',
            ListResults.zip_map_fst_snd]
      | list _ hget' =>
          rw [hget] at hget'
          cases hget'
  | list hleast hget hlength hitems ih =>
      cases hother with
      | element _ hget' =>
          rw [hget] at hget'
          cases hget'
      | list _ hget' hlength' hitems' =>
          rw [hget] at hget'
          cases hget'
          rw [ListResults.eq_of_forall_zip hlength hlength'
            (fun pair hpair z hz => ih pair hpair hz) hitems']

/-! ## Empty elements -/

theorem foldl_eraseP_cons {α β : Type} {p : α → Bool} {x : α} (hx : ¬p x = true) (times : List β)
    (xs : List α) : times.foldl (fun xs _ => xs.eraseP p) (x :: xs) =
      x :: times.foldl (fun xs _ => xs.eraseP p) xs := by
  induction times generalizing xs with
  | nil => rfl
  | cons _ times ih => rw [List.foldl_cons, List.eraseP_cons_of_neg hx, ih, List.foldl_cons]

/-- Removing the first empty item, once for each of them, leaves the others. -/
theorem removeEmpty_eq (heap : Heap) (items : List Value) :
    removeEmpty heap items = items.filter fun item => !heap.isEmptyElement item := by
  rw [removeEmpty]
  induction items with
  | nil => rfl
  | cons item items ih =>
      by_cases hitem : heap.isEmptyElement item = true
      · rw [List.filter_cons_of_pos hitem, List.foldl_cons, List.eraseP_cons_of_pos hitem, ih,
          List.filter_cons_of_neg (by simpa using hitem)]
      · rw [List.filter_cons_of_neg hitem, foldl_eraseP_cons hitem, ih,
          List.filter_cons_of_pos (by simpa using hitem)]

/-! ## Texts -/

theorem strip_eq_nil_iff {text : Text} :
    strip text = [] ↔ ∀ c ∈ text, isWhitespace c = true := by
  rw [strip, List.reverse_eq_nil_iff, List.dropWhile_eq_nil_iff]
  constructor
  · intro hrest c hc
    rw [← List.takeWhile_append_dropWhile (p := isWhitespace) (l := text), List.mem_append] at hc
    rcases hc with hc | hc
    · exact List.all_eq_true.mp List.all_takeWhile c hc
    · exact hrest c (List.mem_reverse.mpr hc)
  · intro hblank c hc
    exact hblank c ((List.dropWhile_sublist _).subset (List.mem_reverse.mp hc))

/-- The current text after some nodes. -/
def textAfter (text : Text) : List Node → Text
  | [] => text
  | .text content :: nodes => textAfter (text ++ content) nodes
  | .element _ _ :: nodes => textAfter [] nodes

theorem strip_textAfter {nodes : List Node} {text : Text} (htext : strip text = [])
    (hblank : ∀ content, .text content ∈ nodes → strip content = []) :
    strip (textAfter text nodes) = [] := by
  induction nodes generalizing text with
  | nil => exact htext
  | cons node nodes ih =>
      have hnodes : ∀ content, .text content ∈ nodes → strip content = [] :=
        fun content hcontent => hblank content (List.mem_cons_of_mem _ hcontent)
      cases node with
      | text content =>
          refine ih (strip_eq_nil_iff.mpr fun c hc => ?_) hnodes
          rcases List.mem_append.mp hc with hc | hc
          · exact strip_eq_nil_iff.mp htext c hc
          · exact strip_eq_nil_iff.mp (hblank content List.mem_cons_self) c hc
      | element name children => exact ih rfl hnodes

theorem textAfter_of_no_elements {nodes : List Node} (hnone : elementNames nodes = [])
    (text : Text) : textAfter text nodes = text ++ contentOf nodes := by
  induction nodes generalizing text with
  | nil => exact (List.append_nil text).symm
  | cons node nodes ih =>
      cases node with
      | text content => rw [textAfter, ih hnone, List.append_assoc, contentOf]
      | element name children => cases hnone

theorem names_translateEntries (settings : Settings) (nodes : List Node) :
    (translateEntries settings nodes).map Prod.fst =
      (elementNames nodes).map settings.getName := by
  induction nodes with
  | nil => rfl
  | cons node nodes ih =>
      rw [translateEntries, List.map_append, ih]
      cases node with
      | text content => rfl
      | element name children => rfl

/-! ## What is read -/

section

variable {settings : Settings}

open XmlHandler (run step)

/-- Some nodes, read while an object is on top for the element with the given tag, change the heap
as given. -/
def Reads (settings : Settings) (tag : Text) (top : ℕ) (nodes : List Node)
    (before after : Heap) : Prop :=
  ∀ rest text, run settings ⟨(tag, top) :: rest, text, before⟩ (Node.eventsOf nodes) =
    .ok ⟨(tag, top) :: rest, textAfter text nodes, after⟩

theorem run_append (self : XmlHandler) (events events' : List Event) :
    run settings self (events ++ events') =
      run settings self events >>= fun self => run settings self events' := by
  rw [run, List.foldlM_append]
  rfl

theorem run_characters (self : XmlHandler) (content : Text) :
    run settings self (content.map .characters) =
      .ok { self with currentText := self.currentText ++ content } := by
  induction content generalizing self with
  | nil =>
      rw [List.append_nil]
      rfl
  | cons c content ih =>
      have hrest := ih { self with currentText := self.currentText ++ [c] }
      rw [List.append_assoc] at hrest
      exact hrest

variable {tag : Text} {top : ℕ} {before between after : Heap}

theorem Reads.nil (tag : Text) (top : ℕ) (heap : Heap) :
    Reads settings tag top [] heap heap :=
  fun _ _ => rfl

theorem Reads.cons {node : Node} {nodes : List Node}
    (hfirst : Reads settings tag top [node] before between)
    (hrest : Reads settings tag top nodes between after) :
    Reads settings tag top (node :: nodes) before after := by
  intro rest text
  have htext : textAfter text (node :: nodes) = textAfter (textAfter text [node]) nodes := by
    cases node with
    | text content => rfl
    | element name children => rfl
  have hevents : Node.eventsOf [node] = node.events := List.append_nil _
  have hnode := hfirst rest text
  rw [hevents] at hnode
  rw [Node.eventsOf, run_append, hnode, htext]
  exact hrest rest _

theorem Reads.text (tag : Text) (top : ℕ) (content : Text) (heap : Heap) :
    Reads settings tag top [.text content] heap heap := by
  intro rest text
  rw [Node.eventsOf, Node.events, Node.eventsOf, List.append_nil, run_characters]
  rfl

/-- An element for which the object on top gives one. -/
theorem Reads.element {name : Text} {children : List Node} {new : ℕ} {given : Given}
    {start : Heap} (hgiven : given = .object new ∨ given = .pair name new)
    (hstart : startElement settings top name before = (some given, start))
    (hchildren : Reads settings name new children start between)
    (hend : endElement settings new name (textAfter [] children) between = after) :
    Reads settings tag top [.element name children] before after := by
  intro rest text
  have hopen : step settings ⟨(tag, top) :: rest, text, before⟩ (.startElement name) =
      .ok ⟨(name, new) :: (tag, top) :: rest, [], start⟩ := by
    rw [step]
    dsimp only
    rw [hstart]
    rcases hgiven with rfl | rfl
    · rfl
    · rfl
  have hclose : step settings ⟨(name, new) :: (tag, top) :: rest, textAfter [] children, between⟩
      (.endElement name) = .ok ⟨(tag, top) :: rest, [], after⟩ := by
    rw [step]
    dsimp only
    rw [if_pos rfl, hend]
  rw [Node.eventsOf_element]
  change step settings _ _ >>= (fun self => run settings self _) = _
  rw [hopen]
  change run settings _ _ = _
  rw [run_append, hchildren]
  change step settings ⟨(name, new) :: (tag, top) :: rest, textAfter [] children, between⟩
    (.endElement name) >>= (fun self => run settings self _) = _
  rw [hclose]
  rfl

/-- How nodes are read into a dictionary. -/
def ReadsEntries (settings : Settings) (nodes : List Node) : Prop :=
  ∀ {top : ℕ} {heap : Heap} {entries : OrderedDict Text Value} {stack : ℕ} {parent : Option ℕ},
    heap.objects[top]? = some (.element entries stack parent) →
    (∀ name ∈ elementNames nodes, settings.getName name ∉ entries.keys) →
    ((elementNames nodes).map settings.getName).Nodup →
    ∃ (after : Heap) (entries' : OrderedDict Text Value) (items : List (Text × Value)),
      (∀ tag, Reads settings tag top nodes heap after) ∧ Frame heap top after ∧
      after.objects[top]? = some (.element entries' stack parent) ∧
      entries'.items = entries.items ++ items ∧
      List.Forall₂ (fun item translated => item.1 = translated.1 ∧
        Holds after heap.objects.length item.2 translated.2) items (translateEntries settings nodes)

/-- How nodes are read into a list. -/
def ReadsItems (settings : Settings) (nodes : List Node) : Prop :=
  ∀ {top : ℕ} {heap : Heap} {elementName : Text} {items : List Value}
    {attributes : OrderedDict Text Value},
    heap.objects[top]? = some (.list elementName items attributes) →
    (∀ name ∈ elementNames nodes, settings.isItem name = true) →
    ∃ (after : Heap) (values : List Value),
      (∀ tag, Reads settings tag top nodes heap after) ∧ Frame heap top after ∧
      after.objects[top]? = some (.list elementName (items ++ values) attributes) ∧
      (∀ ref, .object ref ∈ values →
        heap.objects.length ≤ ref ∧ ref < after.objects.length) ∧
      List.Forall₂ (Holds after heap.objects.length)
        (values.filter fun value => !after.isEmptyElement value) (translateItems settings nodes)

theorem elementNames_cons (node : Node) (nodes : List Node) :
    elementNames (node :: nodes) = elementNames [node] ++ elementNames nodes := by
  rw [elementNames, elementNames, elementNames, ← List.filterMap_append, List.singleton_append]

theorem translateEntries_cons (node : Node) (nodes : List Node) :
    translateEntries settings (node :: nodes) =
      translateEntries settings [node] ++ translateEntries settings nodes := by
  rw [translateEntries, translateEntries, translateEntries, List.append_nil]

theorem translateItems_cons (node : Node) (nodes : List Node) :
    translateItems settings (node :: nodes) =
      translateItems settings [node] ++ translateItems settings nodes := by
  rw [translateItems, translateItems, translateItems, List.append_nil]

/-- Dictionaries are read one element after the other. -/
theorem readsEntries_of_forall {nodes : List Node}
    (hnodes : ∀ node ∈ nodes, ReadsEntries settings [node]) : ReadsEntries settings nodes := by
  induction nodes with
  | nil =>
      intro top heap entries stack parent hget _ _
      exact ⟨heap, entries, [], fun tag => Reads.nil tag top heap, Frame.refl heap top, hget,
        (List.append_nil _).symm, .nil⟩
  | cons node nodes ih =>
      intro top heap entries stack parent hget hnew hdistinct
      obtain ⟨hnode, hrest⟩ := List.forall_mem_cons.mp hnodes
      rw [elementNames_cons, List.map_append, List.nodup_append] at hdistinct
      obtain ⟨hfirst, hlater, hdisjoint⟩ := hdistinct
      rw [elementNames_cons] at hnew
      obtain ⟨between, entries₁, items₁, hreads₁, hframe₁, hget₁, hitems₁, hholds₁⟩ :=
        hnode hget (fun name hname => hnew name (List.mem_append_left _ hname)) hfirst
      have hkeys₁ : entries₁.keys =
          entries.keys ++ (elementNames [node]).map settings.getName := by
        have hnames : items₁.map Prod.fst = (translateEntries settings [node]).map Prod.fst :=
          List.forall₂_eq_eq_eq ▸ (List.forall₂_map_left_iff.mpr (List.forall₂_map_right_iff.mpr
            (hholds₁.imp fun _ _ hpair => hpair.1)))
        rw [OrderedDict.keys, hitems₁, List.map_append, hnames, names_translateEntries]
        rfl
      obtain ⟨after, entries₂, items₂, hreads₂, hframe₂, hget₂, hitems₂, hholds₂⟩ :=
        ih hrest hget₁ (by
          intro name hname hin
          rw [hkeys₁, List.mem_append] at hin
          rcases hin with hin | hin
          · exact hnew name (List.mem_append_right _ hname) hin
          · exact hdisjoint _ hin _ (List.mem_map_of_mem hname) rfl) hlater
      refine ⟨after, entries₂, items₁ ++ items₂, fun tag => (hreads₁ tag).cons (hreads₂ tag),
        hframe₁.trans hframe₂, hget₂, ?_, ?_⟩
      · rw [hitems₂, hitems₁, List.append_assoc]
      · rw [translateEntries_cons]
        refine List.rel_append ?_ ?_
        · exact hholds₁.imp fun _ _ hpair =>
            ⟨hpair.1, hpair.2.frame hframe₂ (lt_of_getElem? hget)⟩
        · exact hholds₂.imp fun _ _ hpair =>
            ⟨hpair.1, hpair.2.mono hframe₁.length fun _ _ _ hget => hget⟩

theorem Heap.Frame.isEmptyElement {heap after : Heap} {top : ℕ} (hframe : Frame heap top after)
    {value : Value} (hvalue : ∀ ref, value = .object ref → ref < heap.objects.length ∧ ref ≠ top) :
    after.isEmptyElement value = heap.isEmptyElement value := by
  cases value with
  | text value => rfl
  | object ref =>
      obtain ⟨hlt, hne⟩ := hvalue ref rfl
      rw [Heap.isEmptyElement, hframe.kept ref hlt hne]
      rfl

/-- Lists are read one item after the other. -/
theorem readsItems_of_forall {nodes : List Node}
    (hnodes : ∀ node ∈ nodes, ReadsItems settings [node]) : ReadsItems settings nodes := by
  induction nodes with
  | nil =>
      intro top heap elementName items attributes hget _
      refine ⟨heap, [], fun tag => Reads.nil tag top heap, Frame.refl heap top, ?_, ?_, .nil⟩
      · rw [List.append_nil, hget]
      · intro ref href
        cases href
  | cons node nodes ih =>
      intro top heap elementName items attributes hget hnames
      obtain ⟨hnode, hrest⟩ := List.forall_mem_cons.mp hnodes
      rw [elementNames_cons] at hnames
      obtain ⟨between, values₁, hreads₁, hframe₁, hget₁, hrefs₁, hholds₁⟩ :=
        hnode hget fun name hname => hnames name (List.mem_append_left _ hname)
      obtain ⟨after, values₂, hreads₂, hframe₂, hget₂, hrefs₂, hholds₂⟩ :=
        ih hrest hget₁ fun name hname => hnames name (List.mem_append_right _ hname)
      refine ⟨after, values₁ ++ values₂, fun tag => (hreads₁ tag).cons (hreads₂ tag),
        hframe₁.trans hframe₂, ?_, ?_, ?_⟩
      · rw [hget₂, List.append_assoc]
      · intro ref href
        rcases List.mem_append.mp href with href | href
        · exact ⟨(hrefs₁ ref href).1, (hrefs₁ ref href).2.trans_le hframe₂.length⟩
        · exact ⟨hframe₁.length.trans (hrefs₂ ref href).1, (hrefs₂ ref href).2⟩
      · have hfilter : values₁.filter (fun value => !after.isEmptyElement value) =
            values₁.filter fun value => !between.isEmptyElement value := by
          refine List.filter_congr fun value hvalue => ?_
          rw [hframe₂.isEmptyElement]
          rintro ref rfl
          have href := hrefs₁ ref hvalue
          exact ⟨href.2, ((lt_of_getElem? hget).trans_le href.1).ne'⟩
        rw [translateItems_cons, List.filter_append, hfilter]
        refine List.rel_append ?_ ?_
        · exact hholds₁.imp fun _ _ hholds => hholds.frame hframe₂ (lt_of_getElem? hget)
        · exact hholds₂.imp fun _ _ hholds =>
            hholds.mono hframe₁.length fun _ _ _ hget => hget

/-! ## One element -/

/-- A new object next to a change of the one on top. -/
theorem exists_add (heap named : Heap) {old : Object} (new object : Object)
    (hnamed : named.objects = heap.objects) (hget : heap.objects[top]? = some old) :
    ((named.add new).setObject top object).objects[heap.objects.length]? = some new ∧
      ((named.add new).setObject top object).objects[top]? = some object ∧
      Frame heap top ((named.add new).setObject top object) := by
  have hlt := lt_of_getElem? hget
  have hobjects : (named.add new).objects = heap.objects ++ [new] := by
    rw [← hnamed]
    rfl
  have hlength : (named.add new).objects.length = heap.objects.length + 1 := by
    rw [hobjects, List.length_append, List.length_singleton]
  refine ⟨?_, ?_, ⟨?_, ?_⟩⟩
  · rw [getElem?_setObject_ne hlt.ne', hobjects]
    exact List.getElem?_concat_length
  · exact getElem?_setObject_self (hlength ▸ Nat.lt_succ_of_lt hlt)
  · rw [length_setObject, hlength]
    exact Nat.le_succ _
  · intro ref href hne
    rw [getElem?_setObject_ne hne, hobjects]
    exact List.getElem?_append_left href

theorem translateEntries_eq_nil_iff (settings : Settings) {nodes : List Node} :
    translateEntries settings nodes = [] ↔ elementNames nodes = [] := by
  have hnames := congrArg List.length (names_translateEntries settings nodes)
  rw [List.length_map, List.length_map] at hnames
  rw [← List.length_eq_zero_iff, hnames, List.length_eq_zero_iff]

/-- What an element that is no list has become before its end: the dictionary of its children, or
no entries and the text of the element. -/
def HasContent (settings : Settings) (children : List Node) (after : Heap) (new : ℕ)
    (entries : OrderedDict Text Value) : Prop :=
  let text := strip (textAfter [] children)
  let translation := Translation.ofContent (contentOf children)
    (translateEntries settings children)
  (text = [] ∧ Holds after new (.object new) translation) ∨
    (text ≠ [] ∧ translation = .text text ∧ entries.items = [])

theorem reads_children {children : List Node} (hread : ReadsEntries settings children)
    (hplain : elementNames children = [] ∨
      ∀ content, .text content ∈ children → strip content = [])
    (hdistinct : ((elementNames children).map settings.getName).Nodup)
    {heap : Heap} {new stack : ℕ} {parent : Option ℕ}
    (hget : heap.objects[new]? = some (.element .empty stack parent)) :
    ∃ after entries, (∀ tag, Reads settings tag new children heap after) ∧ Frame heap new after ∧
      after.objects[new]? = some (.element entries stack parent) ∧
      entries.items.isEmpty = (elementNames children).isEmpty ∧
      HasContent settings children after new entries := by
  obtain ⟨after, entries, items, hreads, hframe, hafter, hitems, hholds⟩ :=
    hread hget (fun _ _ => List.not_mem_nil) hdistinct
  have hentries : entries.items = items := hitems
  have hempty : entries.items.isEmpty = (elementNames children).isEmpty := by
    rw [hentries, Bool.eq_iff_iff, List.isEmpty_iff, List.isEmpty_iff,
      ← translateEntries_eq_nil_iff settings, ← List.length_eq_zero_iff,
      hholds.length_eq, List.length_eq_zero_iff]
  have hdictionary : Holds after new (.object new)
      (.element (translateEntries settings children)) := by
    obtain ⟨hlength, hzip⟩ := List.forall₂_iff_zip.mp hholds
    refine .element le_rfl hafter ?_ ?_
    · rw [OrderedDict.keys, hentries]
      exact List.forall₂_eq_eq_eq ▸ (List.forall₂_map_left_iff.mpr (List.forall₂_map_right_iff.mpr
        (hholds.imp fun _ _ hpair => hpair.1)))
    · rw [hentries]
      rintro ⟨item, translated⟩ hpair
      exact (hzip hpair).2.mono (lt_of_getElem? hget).le fun _ _ _ hget => hget
  refine ⟨after, entries, hreads, hframe, hafter, hempty, ?_⟩
  rw [HasContent]
  cases hnames : elementNames children with
  | nil =>
      have hnone := (translateEntries_eq_nil_iff settings).mpr hnames
      rw [hnone] at hdictionary
      rw [textAfter_of_no_elements hnames, List.nil_append, hnone, Translation.ofContent]
      by_cases htext : strip (contentOf children) = []
      · rw [if_pos htext]
        exact .inl ⟨htext, hdictionary⟩
      · rw [if_neg htext]
        rw [hnames] at hempty
        exact .inr ⟨htext, rfl, List.isEmpty_iff.mp hempty⟩
  | cons name names =>
      have hblank := hplain.resolve_left (by rw [hnames]; exact List.cons_ne_nil _ _)
      refine .inl ⟨strip_textAfter rfl hblank, ?_⟩
      cases htranslated : translateEntries settings children with
      | nil =>
          rw [translateEntries_eq_nil_iff, hnames] at htranslated
          cases htranslated
      | cons entry entries =>
          rw [htranslated] at hdictionary
          exact hdictionary

/-- An object with the text of an element below it. -/
def Object.withText (settings : Settings) (name value : Text) : Object → Object
  | .element entries stack parent =>
      .element (entries.set (settings.getName name) (.text value)) stack parent
  | .list elementName items attributes => .list elementName (items ++ [.text value]) attributes

/-- The end of an element that is no list, which may leave a text in the object above. -/
theorem endElement_of_element (settings : Settings) {heap : Heap} {new above : ℕ} {entries : OrderedDict Text Value}
    {stack : ℕ} {object : Object} (name value : Text)
    (hget : heap.objects[new]? = some (.element entries stack (some above)))
    (habove : heap.objects[above]? = some object) :
    (endElement settings new name value heap).objects =
      if strip value = [] then heap.objects
      else heap.objects.set above (object.withText settings name (strip value)) := by
  rw [endElement, hget]
  dsimp only
  rw [elementEnd]
  by_cases htext : strip value = []
  · rw [if_pos htext, if_pos htext]
    rfl
  · rw [if_neg htext, if_neg htext]
    have habove' : (heap.setStack stack (heap.stackAt stack).tail).objects[above]? =
        some object := habove
    rw [habove']
    cases object with
    | element entries stack parent => rfl
    | list elementName items attributes => rfl

theorem translate_of_plain {name : Text} (hlist : settings.isList name = false)
    (children : List Node) : translate settings (.element name children) =
      .ofContent (contentOf children) (translateEntries settings children) := by
  rw [translate, if_neg (by rw [hlist]; exact Bool.false_ne_true)]

/-- An element that is no list, in a dictionary. -/
theorem readsEntries_of_plain {name : Text} {children : List Node}
    (hlist : settings.isList name = false)
    (hplain : elementNames children = [] ∨
      ∀ content, .text content ∈ children → strip content = [])
    (hdistinct : ((elementNames children).map settings.getName).Nodup)
    (hread : ReadsEntries settings children) :
    ReadsEntries settings [.element name children] := by
  intro top heap entries stack parent hget hnew _
  have hkey : settings.getName name ∉ entries.keys := hnew name List.mem_cons_self
  let named := heap.setStack stack (name :: heap.stackAt stack)
  let start := (named.add (.element .empty stack (some top))).setObject top
    (.element (entries.set (settings.getName name) (.object heap.objects.length)) stack parent)
  have hstart : startElement settings top name heap =
      (some (.pair name heap.objects.length), start) := by
    rw [startElement, hget]
    dsimp only
    rw [elementStart, if_neg (by rw [hlist]; exact Bool.false_ne_true)]
    rfl
  obtain ⟨hnewObject, htop, hframe⟩ := exists_add heap named
    (.element .empty stack (some top))
    (.element (entries.set (settings.getName name) (.object heap.objects.length)) stack parent)
    rfl hget
  obtain ⟨after, inner, hreads, hframe', hafter, _, hcontent⟩ :=
    reads_children hread hplain hdistinct hnewObject
  have htop' := hframe'.get htop (lt_of_getElem? hget).ne
  have hinner : Frame heap top after := hframe.inner le_rfl hframe'
  have hend := endElement_of_element settings name (textAfter [] children) hafter htop'
  have hread : ∀ tag, Reads settings tag top [.element name children] heap
      (endElement settings heap.objects.length name (textAfter [] children) after) :=
    fun tag => .element (.inr rfl) hstart (hreads name) rfl
  rcases hcontent with ⟨htext, hholds⟩ | ⟨htext, htranslation, _⟩
  · rw [if_pos htext] at hend
    refine ⟨_, entries.set (settings.getName name) (.object heap.objects.length),
      [(settings.getName name, .object heap.objects.length)], hread, hinner.of_objects hend, ?_,
      OrderedDict.items_set_of_notMem hkey, .cons ⟨rfl, ?_⟩ .nil⟩
    · rw [hend]
      exact htop'
    · rw [translate_of_plain hlist]
      exact hholds.mono le_rfl fun ref object _ hget => by rw [hend, hget]
  · rw [if_neg htext] at hend
    have hset := hinner.trans (Frame.setObject after top (.element
      ((entries.set (settings.getName name) (.object heap.objects.length)).set
        (settings.getName name) (.text (strip (textAfter [] children)))) stack parent))
    refine ⟨_, entries.set (settings.getName name) (.text (strip (textAfter [] children))),
      [(settings.getName name, .text (strip (textAfter [] children)))], hread,
      hset.of_objects hend, ?_, OrderedDict.items_set_of_notMem hkey, .cons ⟨rfl, ?_⟩ .nil⟩
    · rw [hend, List.getElem?_set_self (lt_of_getElem? htop'), Object.withText,
        OrderedDict.set_set]
    · rw [translate_of_plain hlist, htranslation]
      exact .text _

/-- An element that is no list, in a list. -/
theorem readsItems_of_plain {name : Text} {children : List Node}
    (hlist : settings.isList name = false)
    (hplain : elementNames children = [] ∨
      ∀ content, .text content ∈ children → strip content = [])
    (hdistinct : ((elementNames children).map settings.getName).Nodup)
    (hread : ReadsEntries settings children) :
    ReadsItems settings [.element name children] := by
  intro top heap elementName items attributes hget hitem
  have hitem : settings.isItem name = true := hitem name List.mem_cons_self
  let named : Heap := { heap with nameStacks := heap.nameStacks ++ [[]] }
  let object : Object := .list elementName (items ++ [.object heap.objects.length]) attributes
  let start := (named.add (.element .empty heap.nameStacks.length (some top))).setObject top object
  have hstart : startElement settings top name heap =
      (some (.object heap.objects.length), start) := by
    rw [startElement, hget]
    dsimp only
    rw [listStart, if_neg (by rw [hlist]; exact Bool.false_ne_true), if_pos hitem]
  obtain ⟨hnewObject, htop, hframe⟩ := exists_add heap named
    (.element .empty heap.nameStacks.length (some top)) object rfl hget
  obtain ⟨after, inner, hreads, hframe', hafter, hempty, hcontent⟩ :=
    reads_children hread hplain hdistinct hnewObject
  have htop' := hframe'.get htop (lt_of_getElem? hget).ne
  have hinner : Frame heap top after := hframe.inner le_rfl hframe'
  have hend := endElement_of_element settings name (textAfter [] children) hafter htop'
  have hread : ∀ tag, Reads settings tag top [.element name children] heap
      (endElement settings heap.objects.length name (textAfter [] children) after) :=
    fun tag => .element (.inl rfl) hstart (hreads name) rfl
  have hlt : heap.objects.length < after.objects.length := lt_of_getElem? hafter
  have hisEmpty : ∀ ended : Heap, ended.objects[heap.objects.length]? =
      after.objects[heap.objects.length]? →
        ended.isEmptyElement (.object heap.objects.length) = (elementNames children).isEmpty := by
    intro ended hsame
    rw [Heap.isEmptyElement, hsame, hafter]
    exact hempty
  rcases hcontent with ⟨htext, hholds⟩ | ⟨htext, htranslation, hnone⟩
  · rw [if_pos htext] at hend
    refine ⟨_, [.object heap.objects.length], hread, hinner.of_objects hend, ?_, ?_, ?_⟩
    · rw [hend]
      exact htop'
    · intro ref href
      cases List.mem_singleton.mp href
      exact ⟨le_rfl, by rw [hend]; exact hlt⟩
    · have hempty' := hisEmpty _ (by rw [hend])
      rw [translateItems, translateItems, List.append_nil, isEmptyItem]
      cases hnames : (elementNames children).isEmpty with
      | true =>
          rw [hnames] at hempty'
          have hnone : elementNames children = [] := List.isEmpty_iff.mp hnames
          rw [textAfter_of_no_elements hnone, List.nil_append] at htext
          rw [List.filter_cons_of_neg (by rw [hempty']; exact Bool.false_ne_true), htext]
          exact .nil
      | false =>
          rw [hnames] at hempty'
          rw [List.filter_cons_of_pos (by rw [hempty']; rfl), Bool.false_and,
            if_neg Bool.false_ne_true, translate_of_plain hlist]
          exact .cons (hholds.mono le_rfl fun ref object _ hget => by rw [hend, hget]) .nil
  · rw [if_neg htext] at hend
    have hset := hinner.trans (Frame.setObject after top (.list elementName
      (items ++ [.object heap.objects.length] ++ [.text (strip (textAfter [] children))])
      attributes))
    refine ⟨_, [.object heap.objects.length, .text (strip (textAfter [] children))], hread,
      hset.of_objects hend, ?_, ?_, ?_⟩
    · rw [hend, List.getElem?_set_self (lt_of_getElem? htop'), Object.withText,
        List.append_assoc]
      rfl
    · intro ref href
      rcases List.mem_cons.mp href with href | href
      · cases href
        exact ⟨le_rfl, by rw [hend, List.length_set]; exact hlt⟩
      · cases List.mem_singleton.mp href
    · have hempty' := hisEmpty _ (by rw [hend, List.getElem?_set_ne (lt_of_getElem? hget).ne])
      rw [hnone] at hempty
      have hnames : elementNames children = [] := List.isEmpty_iff.mp hempty.symm
      rw [← hempty] at hempty'
      have hcontent := textAfter_of_no_elements hnames []
      rw [List.nil_append] at hcontent
      have hitem : isEmptyItem (.element name children) = false := by
        rw [isEmptyItem, ← hcontent, Bool.and_eq_false_iff]
        exact .inr (List.isEmpty_eq_false_iff.mpr htext)
      rw [translateItems, translateItems, List.append_nil, hitem, if_neg Bool.false_ne_true,
        translate_of_plain hlist, htranslation,
        List.filter_cons_of_neg (by rw [hempty']; exact Bool.false_ne_true)]
      exact .cons (.text _) .nil

/-- The end of a list, which leaves the items that are not empty. -/
theorem exists_listEnd (settings : Settings) {heap : Heap} {new : ℕ} {items : List Value}
    {attributes : OrderedDict Text Value} (name value : Text)
    (hget : heap.objects[new]? = some (.list name items attributes)) :
    (endElement settings new name value heap).objects[new]? = some (.list name
        (items.filter fun item => !heap.isEmptyElement item) attributes) ∧
      Frame heap new (endElement settings new name value heap) := by
  rw [endElement, hget]
  dsimp only
  rw [listEnd, if_pos rfl]
  cases items with
  | nil => exact ⟨hget, Frame.refl heap new⟩
  | cons item items =>
      have hlength : 0 < (item :: items).length := Nat.succ_pos _
      rw [if_pos hlength, removeEmpty_eq]
      exact ⟨getElem?_setObject_self (lt_of_getElem? hget), Frame.setObject heap new _⟩

/-- A list in a dictionary. -/
theorem readsEntries_of_list {name : Text} {children : List Node}
    (hlist : settings.isList name = true)
    (hitems : ∀ name ∈ elementNames children, settings.isItem name = true)
    (hread : ReadsItems settings children) :
    ReadsEntries settings [.element name children] := by
  intro top heap entries stack parent hget hnew _
  have hkey : settings.getName name ∉ entries.keys := hnew name List.mem_cons_self
  let named := heap.setStack stack (name :: heap.stackAt stack)
  let start := (named.add (.list name [] .empty)).setObject top
    (.element (entries.set (settings.getName name) (.object heap.objects.length)) stack parent)
  have hstart : startElement settings top name heap =
      (some (.object heap.objects.length), start) := by
    rw [startElement, hget]
    dsimp only
    rw [elementStart, if_pos hlist]
    rfl
  obtain ⟨hnewObject, htop, hframe⟩ := exists_add heap named (.list name [] .empty)
    (.element (entries.set (settings.getName name) (.object heap.objects.length)) stack parent)
    rfl hget
  obtain ⟨after, values, hreads, hframe', hafter, _, hholds⟩ := hread hnewObject hitems
  obtain ⟨hended, hframe''⟩ := exists_listEnd settings name (textAfter [] children)
    hafter
  have hinner := hframe'.trans hframe''
  refine ⟨_, entries.set (settings.getName name) (.object heap.objects.length),
    [(settings.getName name, .object heap.objects.length)],
    fun tag => .element (.inl rfl) hstart (hreads name) rfl, hframe.inner le_rfl hinner,
    hinner.get htop (lt_of_getElem? hget).ne, OrderedDict.items_set_of_notMem hkey,
    .cons ⟨rfl, ?_⟩ .nil⟩
  obtain ⟨hlength, hzip⟩ := List.forall₂_iff_zip.mp hholds
  rw [translate, if_pos hlist]
  refine .list le_rfl hended hlength ?_
  rintro ⟨item, translated⟩ hpair
  have hlt := lt_of_getElem? hnewObject
  exact ((hzip hpair).frame hframe'' hlt).mono hlt.le fun _ _ _ hget => hget

/-- Any tree that conforms is read as what it is translated to. -/
theorem reads_of_conforms
    (hitems : ∀ name, settings.isItem name = true → settings.isList name = false) {node : Node}
    (hconforms : Conforms settings node) :
    ReadsEntries settings [node] ∧ ReadsItems settings [node] := by
  induction hconforms with
  | text content =>
      constructor
      · intro top heap entries stack parent hget _ _
        exact ⟨heap, entries, [], fun tag => Reads.text tag top content heap, Frame.refl heap top,
          hget, (List.append_nil _).symm, .nil⟩
      · intro top heap elementName items attributes hget _
        refine ⟨heap, [], fun tag => Reads.text tag top content heap, Frame.refl heap top, ?_,
          ?_, .nil⟩
        · rw [List.append_nil, hget]
        · intro ref href
          cases href
  | element name children hplain hlist hdistinct _ ih =>
      cases hname : settings.isList name with
      | true =>
          constructor
          · exact readsEntries_of_list hname (hlist hname).2
              (readsItems_of_forall fun child hchild => (ih child hchild).2)
          · intro top heap elementName items attributes _ hitem
            have hnot := hitems name (hitem name List.mem_cons_self)
            rw [hname] at hnot
            cases hnot
      | false =>
          have hread : ReadsEntries settings children :=
            readsEntries_of_forall fun child hchild => (ih child hchild).1
          exact ⟨readsEntries_of_plain hname hplain (hdistinct hname) hread,
            readsItems_of_plain hname hplain (hdistinct hname) hread⟩

end

/-- Every document is read as what it is translated to. -/
theorem isTranslated (settings : Settings) (document : Document settings) :
    IsTranslated settings document := by
  have hspec : ReadsEntries settings [document.node] :=
    (reads_of_conforms document.items document.conforms).1
  have hempty : (⟨[.element .empty 0 none], [[]]⟩ : Heap).objects[0]? =
      some (.element .empty 0 none) := rfl
  obtain ⟨after, entries, items, hreads, _, hget, hentries, hholds⟩ :=
    hspec hempty (fun _ _ => List.not_mem_nil) (List.nodup_singleton _)
  refine ⟨after, ?_, fun translation => ?_⟩
  · have hevents : Node.eventsOf [document.node] = document.node.events := List.append_nil _
    have hrun := hreads "root".toList [] []
    rw [XmlHandler.parse, ← hevents]
    exact congrArg (Except.map XmlHandler.heap) hrun
  · have hroot : Holds after 0 (.object 0)
        (.element [(settings.getName document.name, translate settings document.node)]) := by
      have htranslated : translateEntries settings [document.node] =
          [(settings.getName document.name, translate settings document.node)] := by
        rw [translateEntries, translateEntries]
        rfl
      have hitems : entries.items = items := hentries
      rw [htranslated, ← hitems] at hholds
      obtain ⟨hlength, hzip⟩ := List.forall₂_iff_zip.mp hholds
      refine .element le_rfl hget ?_ ?_
      · exact List.forall₂_eq_eq_eq ▸ (List.forall₂_map_left_iff.mpr
          (List.forall₂_map_right_iff.mpr (hholds.imp fun _ _ hpair => hpair.1)))
      · rintro ⟨item, translated⟩ hpair
        exact (hzip hpair).2.mono (Nat.zero_le _) fun _ _ _ hget => hget
    constructor
    · intro hholds
      exact hholds.unique hroot
    · rintro rfl
      exact hroot

end Boto.JsonResponse
