import Boto.Handler
import Boto.Support.ListResults
import Boto.Support.OrderedDict
import Mathlib.Data.List.Zip
import Mathlib.Order.Nat

/-!
# Responses with declared attributes

`boto/mws/response.py`: the classes of a response declare attributes, and every object of such a
class sets up a clone of each of them.  Reading fills the clones, and the end of an element puts
their values in their place.  Declared attributes are objects of the classes, which all responses
share, so they live in one heap with the objects and the clones.
-/

namespace Boto.MWS

open Xml (Node Event elementNames contentOf)

/-! ## Classes and objects -/

/-- The classes `Element`, `ElementList`, `SimpleList` and `MemberList`. -/
inductive Kind
  | element
  | elementList
  | simpleList
  | memberList
  deriving DecidableEq

/-- A class of responses.  Attributes are declared by references to objects of the heap. -/
inductive Class
  | responseElement
  | response (metadata : ℕ)
  | derived (name : Text) (base : Class) (declaredNamespace : Option Text)
      (attributes : List (Text × ℕ))

namespace Class

/-- What `inherit` collects: the declared attributes of the class and those it derives from. -/
def scope : Class → OrderedDict Text ℕ
  | responseElement => .empty
  | response metadata => OrderedDict.empty.set "ResponseMetadata".toList metadata
  | derived _ base _ attributes =>
      attributes.foldl (fun scope entry => scope.set entry.1 entry.2) base.scope

/-- `_namespace`. -/
def namespace? : Class → Option Text
  | responseElement => none
  | response _ => none
  | derived _ base declaredNamespace _ => declaredNamespace.or base.namespace?

/-- `_name or __name__`. -/
def name : Class → Text
  | responseElement => "ResponseElement".toList
  | response _ => "Response".toList
  | derived name _ _ _ => name

/-- Whether the class derives from `Response`. -/
def isResponse : Class → Bool
  | responseElement => false
  | response _ => true
  | derived _ base _ _ => base.isResponse

end Class

/-- A Python value. -/
inductive Value
  | none
  | text (value : Text)
  | object (ref : ℕ)
  | list (items : List Value)

/-- An attribute of an object: a declaration, or a value. -/
inductive Attribute
  | node (ref : ℕ)
  | value (value : Value)

/-- `DeclarativeType`. -/
structure DeclarativeType where
  kind : Kind
  hint : Class
  value : Value
  parent : Option ℕ
  name : Option Text
  clone : Option ℕ

/-- The `_value` that a class starts with. -/
def Kind.initial : Kind → Value
  | element => .none
  | elementList => .list []
  | simpleList => .list []
  | memberList => .none

/-- A declaration as it is made. -/
def DeclarativeType.init (kind : Kind) (hint : Class) : DeclarativeType :=
  ⟨kind, hint, kind.initial, none, none, none⟩

/-- `ResponseElement`. -/
structure ResponseElement where
  cls : Class
  name : Text
  space : Option Text
  attributes : OrderedDict Text Attribute

/-- The declarations and the objects. -/
structure Heap where
  nodes : List DeclarativeType
  elements : List ResponseElement

/-- `getattr(self, name, None)`: an attribute of the object, or one of its class. -/
def ResponseElement.getattr (self : ResponseElement) (name : Text) : Option Attribute :=
  (self.attributes.get? name).or ((self.cls.scope.get? name).map .node)

/-- `setattr(self, name, value)` for an attribute that is no property. -/
def Heap.setattr (self : Heap) (ref : ℕ) (name : Text) (value : Attribute) : Heap :=
  { self with elements := self.elements.modify ref fun element =>
      { element with attributes := element.attributes.set name value } }

/-- A declaration with another value. -/
def Heap.setValue (self : Heap) (node : ℕ) (value : Value) : Heap :=
  { self with nodes := self.nodes.modify node fun declared => { declared with value := value } }

/-! ## Declarations -/

/-- `setup`. -/
def setup (parent : ℕ) (heap : Heap) (declared : Text × ℕ) : Heap :=
  match heap.nodes[declared.2]? with
  | none => heap
  | some node =>
      let clone := heap.nodes.length
      let cloned := { DeclarativeType.init node.kind node.hint with
        parent := some parent, name := some declared.1 }
      let node := { node with
        parent := some parent, name := some declared.1, clone := some clone }
      Heap.setattr { heap with nodes := heap.nodes.set declared.2 node ++ [cloned] } parent
        declared.1 (.node clone)

/-- The declarations among the attributes of an object and its class, on which `_declared` acts. -/
def ResponseElement.declared (self : ResponseElement) : List (Text × ℕ) :=
  let own := self.attributes.items
  let inherited : List (Text × Attribute) :=
    (self.cls.scope.items.filter fun entry => !self.attributes.contains entry.1).map
      fun entry => (entry.1, .node entry.2)
  (own ++ inherited).filterMap fun
    | (name, .node ref) => some (name, ref)
    | (_, .value _) => none

/-- `ResponseElement(name=name, parent=parent)`. -/
def init (cls : Class) (name : Option Text) (parent : Option ℕ) (heap : Heap) : ℕ × Heap :=
  let inherited := (parent.bind fun parent => heap.elements[parent]?).bind ResponseElement.space
  let self : ResponseElement :=
    ⟨cls, name.getD cls.name, cls.namespace?.or inherited, .empty⟩
  let ref := heap.elements.length
  (ref, self.declared.foldl (setup ref) { heap with elements := heap.elements ++ [self] })

/-- `start`. -/
def start (ref : ℕ) (name : Text) (heap : Heap) : Option ℕ × Heap :=
  match heap.nodes[ref]? with
  | none => (none, heap)
  | some node =>
      match node.kind with
      | .element | .memberList =>
          let made := init node.hint (some name) node.parent heap
          (some made.1, made.2.setValue ref (.object made.1))
      | .simpleList => (none, heap)
      | .elementList =>
          let made := init node.hint (some name) node.parent heap
          match node.value with
          | .list items => (some made.1, made.2.setValue ref (.list (items ++ [.object made.1])))
          | _ => (some made.1, made.2)

/-- `end`. -/
def endOf (ref : ℕ) (value : Text) (heap : Heap) : Heap :=
  match heap.nodes[ref]? with
  | some ⟨.simpleList, _, .list items, _, _, _⟩ =>
      heap.setValue ref (.list (items ++ [.text value]))
  | _ => heap

/-- The value that a declaration leaves, and the objects when it is found. -/
def finish (node : DeclarativeType) (heap : Heap) : Except PyError (Value × Heap) :=
  match node.kind with
  | .memberList =>
      match node.value with
      | .none => .ok (.list [], heap)
      | .object made =>
          match (heap.elements[made]?).bind fun element => element.getattr "member".toList with
          | some (.node _) =>
              .ok (.list [], heap.setattr made "member".toList (.value (.list [])))
          | some (.value value) => .ok (value, heap)
          | none => .error (.attributeError "member")
      | _ => .error (.attributeError "member")
  | _ => .ok (node.value, heap)

/-- `teardown`. -/
def teardown (heap : Heap) (declared : Text × ℕ) : Except PyError Heap :=
  match heap.nodes[declared.2]? with
  | none => .ok heap
  | some node => do
      let (value, heap) ← finish node heap
      let heap := heap.setValue declared.2 value
      match node.parent, node.name with
      | some parent, some name => return heap.setattr parent name (.value value)
      | _, _ => .error (.attributeError "_parent")

/-! ## Objects -/

/-- `strip_namespace`. -/
def stripNamespace (space : Option Text) (name : Text) : Text :=
  match space with
  | none => name
  | some space =>
      if (space ++ [':']).isPrefixOf name = true then name.drop (space ++ [':']).length else name

/-- `ResponseElement.startElement`, for an element without attributes. -/
def elementStart (self : ResponseElement) (name : Text) (heap : Heap) : Option ℕ × Heap :=
  let name := stripNamespace self.space name
  match self.getattr name with
  | some (.node node) => start node name heap
  | _ => (none, heap)

/-- The properties of the classes, which cannot be set. -/
def isProperty (cls : Class) (name : Text) : Bool :=
  !cls.scope.contains name && (name = "connection".toList ||
    (cls.isResponse && (name = "_result".toList || name = "_action".toList)))

/-- The objects of a response, with the attributes that are elements of a document. -/
def methods : Nodes ℕ Heap where
  startElement ref name heap :=
    match heap.elements[ref]? with
    | none => (none, heap)
    | some self =>
        if self.cls.isResponse = true then
          let name := stripNamespace self.space name
          if name = self.name then (none, heap) else elementStart self name heap
        else elementStart self name heap
  endElement ref name value heap :=
    match heap.elements[ref]? with
    | none => .ok heap
    | some self =>
        let name := stripNamespace self.space name
        if name = self.name then self.declared.foldlM teardown heap
        else
          match self.getattr name with
          | some (.node node) => .ok (endOf node value heap)
          | _ =>
              if isProperty self.cls name = true then .error (.attributeError "can't set attribute")
              else .ok (heap.setattr ref name (.value (.text value)))

/-- Reading a document into a new object of a class. -/
def parse (cls : Class) (heap : Heap) (events : List Event) : Except PyError (ℕ × Heap) :=
  let made := init cls none none heap
  (XmlHandler.parse methods made.1 made.2 events).map fun heap => (made.1, heap)

/-! ## Schemas -/

/-- What a declaration of a class is made of. -/
structure Declared where
  kind : Kind
  hint : Class

/-- Names of attributes that the code itself uses. -/
def ownNames : List Text :=
  ["connection".toList, "startElement".toList, "endElement".toList, "endNode".toList,
    "_name".toList, "_namespace".toList, "_declared".toList, "_result".toList, "_action".toList,
    "__class__".toList, "__dict__".toList, "__weakref__".toList]

/-- The declarations of some classes: `MemberList` declares a list under the name `member`. -/
structure Schema where
  size : ℕ
  declared : ℕ → Declared
  closed : ∀ ref < size, ∀ pair ∈ (declared ref).hint.scope.items, pair.2 < size
  member : ∀ ref < size, (declared ref).kind = .memberList →
    ∃ list, (declared ref).hint.scope.get? "member".toList = some list ∧
      ((declared list).kind = .elementList ∨ (declared list).kind = .simpleList)

/-- The declarations when the classes have just been defined. -/
def Schema.heap (self : Schema) : Heap where
  nodes := (List.range self.size).map fun ref =>
    .init (self.declared ref).kind (self.declared ref).hint
  elements := []

/-- The heaps between the events of any responses. -/
inductive Reached (schema : Schema) : Heap → Prop
  | initial : Reached schema schema.heap
  | read {heap : Heap} {cls : Class} {events : List Event} {handler : XmlHandler ℕ Heap}
      (hheap : Reached schema heap)
      (hrun : XmlHandler.run methods ⟨[("root".toList, (init cls none none heap).1)], [],
        (init cls none none heap).2⟩ events = .ok handler) : Reached schema handler.objects

/-! ## What a response says -/

/-- What an object holds after reading. -/
inductive Parsed
  | none
  | text (value : Text)
  | list (items : List Parsed)
  | object (attributes : List (Text × Parsed))

/-- What becomes of an element in an object. -/
inductive Result
  | child (name : Text) (parsed : Parsed)
  | leaf (name : Text) (value : Text)

/-- The declared children with a name. -/
def childrenNamed (name : Text) (results : List Result) : List Parsed :=
  results.filterMap fun
    | .child name' parsed => if name' = name then some parsed else none
    | .leaf _ _ => none

/-- The leaves that are not declared. -/
def leavesOf (results : List Result) : List (Text × Text) :=
  results.filterMap fun
    | .child _ _ => none
    | .leaf name value => some (name, value)

/-- The children of a declared attribute: one or none, or all of them in order. -/
def stored : Kind → List Parsed → Parsed
  | .element, children => children.head?.getD .none
  | .memberList, children => children.head?.getD .none
  | .elementList, children => .list children
  | .simpleList, children => .list children

/-- The members of what is a list of members. -/
def members : Parsed → Parsed
  | .object attributes => (attributes.lookup "member".toList).getD .none
  | _ => .list []

/-- What a declared attribute holds. -/
def held (kind : Kind) (children : List Parsed) : Parsed :=
  if kind = .memberList then members (stored kind children) else stored kind children

section

variable (declared : ℕ → Declared)

/-- What an object holds: its declared attributes, and the leaves that are not declared. -/
def assemble (cls : Class) (results : List Result) : Parsed :=
  .object ((cls.scope.items.map fun entry =>
      (entry.1, held (declared entry.2).kind (childrenNamed entry.1 results))) ++
    (leavesOf results).map fun leaf => (leaf.1, .text leaf.2))

mutual

/-- What becomes of a node in an object of a class. -/
def resultsOf : Class → Option Text → Node → List Result
  | _, _, .text _ => []
  | cls, space, .element tag children =>
      let name := stripNamespace space tag
      match cls.scope.get? name with
      | none => [.leaf name (contentOf children)]
      | some ref =>
          if (declared ref).kind = .simpleList then [.child name (.text (contentOf children))]
          else
            let hint := (declared ref).hint
            [.child name (assemble declared hint
              (resultsFrom hint (hint.namespace?.or space) children))]

/-- What becomes of some nodes in an object of a class. -/
def resultsFrom : Class → Option Text → List Node → List Result
  | _, _, [] => []
  | cls, space, node :: nodes => resultsOf cls space node ++ resultsFrom cls space nodes

end

/-- The nodes that conform to a class, within an element of a name. -/
inductive Conforms : Class → Text → Option Text → List Node → Prop
  | object (cls : Class) (name : Text) (space : Option Text) (children : List Node)
      (hname : ∀ tag inner, .element tag inner ∈ children →
        stripNamespace space tag ≠ name ∧ stripNamespace space tag ∉ ownNames ∧
          stripNamespace space (stripNamespace space tag) = stripNamespace space tag)
      (hleaf : ∀ tag inner, .element tag inner ∈ children →
        (∀ ref, cls.scope.get? (stripNamespace space tag) = some ref →
          (declared ref).kind = .simpleList) → elementNames inner = [])
      (honce : ((elementNames children).map (stripNamespace space)).Pairwise
        fun first second => first = second → ∃ ref, cls.scope.get? first = some ref ∧
          ((declared ref).kind = .elementList ∨ (declared ref).kind = .simpleList))
      (hclose : ∀ tag inner ref, .element tag inner ∈ children →
        cls.scope.get? (stripNamespace space tag) = some ref →
        (declared ref).kind ≠ .simpleList →
        stripNamespace ((declared ref).hint.namespace?.or space) tag = stripNamespace space tag)
      (hinner : ∀ tag inner ref, .element tag inner ∈ children →
        cls.scope.get? (stripNamespace space tag) = some ref →
        (declared ref).kind ≠ .simpleList →
        Conforms (declared ref).hint (stripNamespace space tag)
          ((declared ref).hint.namespace?.or space) inner) : Conforms cls name space children

end

/-- A value is what was parsed, in objects with no reference less than some number. -/
inductive Holds (heap : Heap) (least : ℕ) : Value → Parsed → Prop
  | none : Holds heap least .none .none
  | text (value : Text) : Holds heap least (.text value) (.text value)
  | list {items : List Value} {parsed : List Parsed} (hlength : items.length = parsed.length)
      (hitems : ∀ pair ∈ items.zip parsed, Holds heap least pair.1 pair.2) :
      Holds heap least (.list items) (.list parsed)
  | object {ref : ℕ} {element : ResponseElement} {values : List (Text × Value)}
      {parsed : List (Text × Parsed)} (hleast : least ≤ ref)
      (hget : heap.elements[ref]? = some element)
      (hattributes : element.attributes.items = values.map fun value => (value.1, .value value.2))
      (hnames : values.map Prod.fst = parsed.map Prod.fst)
      (hvalues : ∀ pair ∈ values.zip parsed, Holds heap least pair.1.2 pair.2.2) :
      Holds heap least (.object ref) (.object parsed)

/-- Reading a document with some tag and content into an object of a class gives what the
document says, whatever was read before. -/
def IsFaithful (schema : Schema) (cls : Class) (tag : Text) (children : List Node) : Prop :=
  ∀ heap, Reached schema heap → ∃ ref after,
    parse cls heap (Node.element tag children).events = .ok (ref, after) ∧
      ∀ parsed, Holds after 0 (.object ref) parsed ↔ parsed =
        assemble schema.declared cls
          (resultsFrom schema.declared cls cls.namespace? children)

/-! ## The heap -/

/-- The declarations of the classes are in the heap. -/
def Respects (schema : Schema) (heap : Heap) : Prop :=
  ∀ ref < schema.size, ∃ node, heap.nodes[ref]? = some node ∧
    node.kind = (schema.declared ref).kind ∧ node.hint = (schema.declared ref).hint

theorem Respects.size_le {schema : Schema} {heap : Heap} (hheap : Respects schema heap) :
    schema.size ≤ heap.nodes.length := by
  cases hsize : schema.size with
  | zero => exact Nat.zero_le _
  | succ size =>
      obtain ⟨node, hget, _⟩ := hheap size (by rw [hsize]; exact Nat.lt_succ_self size)
      exact (List.getElem?_eq_some_iff.mp hget).1

/-- Declarations stay what they are made of. -/
def Keeps (heap after : Heap) : Prop :=
  ∀ (ref : ℕ) (node : DeclarativeType), heap.nodes[ref]? = some node →
    ∃ node' : DeclarativeType, after.nodes[ref]? = some node' ∧ node'.kind = node.kind ∧
      node'.hint = node.hint

namespace Keeps

variable {heap after last : Heap}

theorem refl (heap : Heap) : Keeps heap heap :=
  fun _ node hget => ⟨node, hget, rfl, rfl⟩

theorem trans (hfirst : Keeps heap after) (hlast : Keeps after last) : Keeps heap last := by
  intro ref node hget
  obtain ⟨node', hget', hkind, hhint⟩ := hfirst ref node hget
  obtain ⟨node'', hget'', hkind', hhint'⟩ := hlast ref node' hget'
  exact ⟨node'', hget'', hkind'.trans hkind, hhint'.trans hhint⟩

theorem respects {schema : Schema} (hkeeps : Keeps heap after) (hheap : Respects schema heap) :
    Respects schema after := by
  intro ref href
  obtain ⟨node, hget, hkind, hhint⟩ := hheap ref href
  obtain ⟨node', hget', hkind', hhint'⟩ := hkeeps ref node hget
  exact ⟨node', hget', hkind'.trans hkind, hhint'.trans hhint⟩

theorem setattr (heap : Heap) (ref : ℕ) (name : Text) (value : Attribute) :
    Keeps heap (heap.setattr ref name value) :=
  fun _ node hget => ⟨node, hget, rfl, rfl⟩

theorem setValue (heap : Heap) (ref : ℕ) (value : Value) : Keeps heap (heap.setValue ref value) := by
  intro other node hget
  by_cases hother : other = ref
  · subst hother
    refine ⟨{ node with value := value }, ?_, rfl, rfl⟩
    rw [Heap.setValue, List.getElem?_modify_eq, hget]
    rfl
  · refine ⟨node, ?_, rfl, rfl⟩
    change (heap.nodes.modify ref _)[other]? = _
    rw [ List.getElem?_modify_ne _ _ (Ne.symm hother), hget]

theorem setup (parent : ℕ) (heap : Heap) (declared : Text × ℕ) :
    Keeps heap (MWS.setup parent heap declared) := by
  intro ref node hget
  rw [MWS.setup]
  cases hdeclared : heap.nodes[declared.2]? with
  | none => exact ⟨node, hget, rfl, rfl⟩
  | some found =>
      have hlt := (List.getElem?_eq_some_iff.mp hget).1
      by_cases href : ref = declared.2
      · subst href
        rw [hget] at hdeclared
        cases hdeclared
        refine ⟨{ node with parent := some parent, name := some declared.1
                            clone := some heap.nodes.length }, ?_, rfl, rfl⟩
        change (heap.nodes.set _ _ ++ [_])[declared.2]? = _
        rw [List.getElem?_append_left (by rwa [List.length_set]), List.getElem?_set_self hlt]
      · refine ⟨node, ?_, rfl, rfl⟩
        change (heap.nodes.set _ _ ++ [_])[ref]? = _
        rw [List.getElem?_append_left (by rwa [List.length_set]),
          List.getElem?_set_ne (Ne.symm href), hget]

theorem foldl {α : Type} {f : Heap → α → Heap} (hf : ∀ heap x, Keeps heap (f heap x))
    (xs : List α) (heap : Heap) : Keeps heap (xs.foldl f heap) := by
  induction xs generalizing heap with
  | nil => exact refl heap
  | cons x xs ih => exact (hf heap x).trans (ih _)

theorem init (cls : Class) (name : Option Text) (parent : Option ℕ) (heap : Heap) :
    Keeps heap (MWS.init cls name parent heap).2 := by
  have hadd : ∀ element, Keeps heap { heap with elements := heap.elements ++ [element] } :=
    fun _ _ node hget => ⟨node, hget, rfl, rfl⟩
  exact (hadd _).trans (foldl (setup _) _ _)

theorem start (ref : ℕ) (name : Text) (heap : Heap) :
    Keeps heap (MWS.start ref name heap).2 := by
  rw [MWS.start]
  cases heap.nodes[ref]? with
  | none => exact refl heap
  | some node =>
      obtain ⟨kind, hint, value, parent, nodeName, clone⟩ := node
      cases kind with
      | element => exact (init _ _ _ _).trans (setValue _ _ _)
      | memberList => exact (init _ _ _ _).trans (setValue _ _ _)
      | simpleList => exact refl heap
      | elementList =>
          cases value with
          | list items => exact (init _ _ _ _).trans (setValue _ _ _)
          | none => exact init _ _ _ _
          | text value => exact init _ _ _ _
          | object made => exact init _ _ _ _

theorem elementStart (self : ResponseElement) (name : Text) (heap : Heap) :
    Keeps heap (MWS.elementStart self name heap).2 := by
  rw [MWS.elementStart]
  cases self.getattr (stripNamespace self.space name) with
  | none => exact refl heap
  | some value =>
      cases value with
      | node node => exact start _ _ _
      | value value => exact refl heap

end Keeps

/-- What happens to a heap while an object is on top: no other object that was there changes, and
no other clone than its own. -/
structure Frame (schema : Schema) (heap : Heap) (top : ℕ) (clones : List ℕ) (after : Heap) :
    Prop where
  elementsLength : heap.elements.length ≤ after.elements.length
  nodesLength : heap.nodes.length ≤ after.nodes.length
  elements : ∀ ref < heap.elements.length, ref ≠ top →
    after.elements[ref]? = heap.elements[ref]?
  nodes : ∀ ref, schema.size ≤ ref → ref < heap.nodes.length → ref ∉ clones →
    after.nodes[ref]? = heap.nodes[ref]?

namespace Frame

variable {schema : Schema} {heap after last : Heap} {top : ℕ} {clones : List ℕ}

theorem refl (heap : Heap) (top : ℕ) (clones : List ℕ) : Frame schema heap top clones heap :=
  ⟨le_rfl, le_rfl, fun _ _ _ => rfl, fun _ _ _ _ => rfl⟩

theorem trans (hfirst : Frame schema heap top clones after)
    (hlast : Frame schema after top clones last) : Frame schema heap top clones last := by
  refine ⟨hfirst.elementsLength.trans hlast.elementsLength,
    hfirst.nodesLength.trans hlast.nodesLength, fun ref hlt hne => ?_, fun ref hle hlt hin => ?_⟩
  · rw [hlast.elements ref (hlt.trans_le hfirst.elementsLength) hne, hfirst.elements ref hlt hne]
  · rw [hlast.nodes ref hle (hlt.trans_le hfirst.nodesLength) hin, hfirst.nodes ref hle hlt hin]

theorem get (hframe : Frame schema heap top clones after) {ref : ℕ} {element : ResponseElement}
    (hget : heap.elements[ref]? = some element) (hne : ref ≠ top) :
    after.elements[ref]? = some element := by
  rw [hframe.elements ref (List.getElem?_eq_some_iff.mp hget).1 hne, hget]

end Frame

/-- A value stays what was parsed where the objects do. -/
theorem Holds.mono {heap after : Heap} {least least' : ℕ} {value : Value} {parsed : Parsed}
    (hholds : Holds heap least value parsed) (hle : least' ≤ least)
    (hkept : ∀ ref element, least ≤ ref → heap.elements[ref]? = some element →
      after.elements[ref]? = some element) : Holds after least' value parsed := by
  induction hholds with
  | none => exact .none
  | text value => exact .text value
  | list hlength _ ih => exact .list hlength ih
  | object hleast hget hattributes hnames _ ih =>
      exact .object (hle.trans hleast) (hkept _ _ hleast hget) hattributes hnames ih

theorem Holds.frame {schema : Schema} {heap after : Heap} {least top : ℕ} {clones : List ℕ}
    {value : Value} {parsed : Parsed} (hholds : Holds heap least value parsed)
    (hframe : Frame schema heap top clones after) (htop : top < least) :
    Holds after least value parsed :=
  hholds.mono le_rfl fun _ _ hleast hget => hframe.get hget (htop.trans_le hleast).ne'

/-- A list with one more item. -/
theorem Holds.append {heap : Heap} {least : ℕ} {items : List Value} {parsed : List Parsed}
    (hholds : Holds heap least (.list items) (.list parsed)) {item : Value} {last : Parsed}
    (hlast : Holds heap least item last) :
    Holds heap least (.list (items ++ [item])) (.list (parsed ++ [last])) := by
  cases hholds with
  | list hlength hitems =>
      refine .list (by rw [List.length_append, List.length_append, hlength]; rfl) fun pair hpair => ?_
      rw [List.zip_append hlength, List.mem_append] at hpair
      rcases hpair with hpair | hpair
      · exact hitems pair hpair
      · cases List.mem_singleton.mp hpair
        exact hlast

/-- A value is what one thing only was parsed to. -/
theorem Holds.unique {heap : Heap} {least : ℕ} {value : Value} {parsed : Parsed}
    (hholds : Holds heap least value parsed) {other : Parsed}
    (hother : Holds heap least value other) : parsed = other := by
  induction hholds generalizing other with
  | none =>
      cases hother
      rfl
  | text value =>
      cases hother
      rfl
  | list hlength _ ih =>
      cases hother with
      | list hlength' hitems' =>
          rw [ListResults.eq_of_forall_zip hlength hlength'
            (fun pair hpair z hz => ih pair hpair hz) hitems']
  | @object ref element values parsed hleast hget hattributes hnames _ ih =>
      cases hother with
      | @object _ _ values' parsed' _ hget' hattributes' hnames' hvalues' =>
          rw [hget] at hget'
          cases hget'
          have hinj : Function.Injective fun value : Text × Value =>
              (value.1, Attribute.value value.2) := by
            rintro ⟨name, value⟩ ⟨name', value'⟩ heq
            cases heq
            rfl
          have hsame : values = values' :=
            List.map_injective_iff.mpr hinj (hattributes.symm.trans hattributes')
          subst hsame
          have hlength : values.length = (parsed.map Prod.snd).length := by
            rw [List.length_map, ← List.length_map (f := Prod.fst), hnames, List.length_map]
          have hlength' : values.length = (parsed'.map Prod.snd).length := by
            rw [List.length_map, ← List.length_map (f := Prod.fst), hnames', List.length_map]
          have hvalue : parsed.map Prod.snd = parsed'.map Prod.snd := by
            refine ListResults.eq_of_forall_zip hlength hlength'
              (r := fun value parsed => Holds heap least value.2 parsed) ?_ ?_
            · rw [List.zip_map_right]
              exact List.forall_mem_map.mpr fun pair hpair z hz => ih pair hpair hz
            · rw [List.zip_map_right]
              exact List.forall_mem_map.mpr hvalues'
          rw [← ListResults.zip_map_fst_snd parsed, ← hnames, hvalue, hnames',
            ListResults.zip_map_fst_snd]

/-! ## Open objects -/

theorem snd_eq_of_zip {α β : Type} {xs : List α} {ys : List β} (hxs : xs.Nodup) {x : α} {y y' : β}
    (hy : (x, y) ∈ xs.zip ys) (hy' : (x, y') ∈ xs.zip ys) : y = y' := by
  induction xs generalizing ys with
  | nil => cases hy
  | cons x₀ xs ih =>
      cases ys with
      | nil => cases hy
      | cons y₀ ys =>
          rw [List.nodup_cons] at hxs
          rw [List.zip_cons_cons, List.mem_cons] at hy hy'
          rcases hy with hy | hy
          · rcases hy' with hy' | hy'
            · exact (Prod.mk.inj hy).2.trans (Prod.mk.inj hy').2.symm
            · exact absurd ((Prod.mk.inj hy).1 ▸ (List.of_mem_zip hy').1) hxs.1
          · rcases hy' with hy' | hy'
            · exact absurd ((Prod.mk.inj hy').1 ▸ (List.of_mem_zip hy).1) hxs.1
            · exact ih hxs.2 hy hy'

theorem fst_eq_of_zip {α β : Type} {xs : List α} {ys : List β} (hys : ys.Nodup) {x x' : α} {y : β}
    (hx : (x, y) ∈ xs.zip ys) (hx' : (x', y) ∈ xs.zip ys) : x = x' := by
  rw [← List.zip_swap, List.mem_map] at hx hx'
  obtain ⟨⟨y₁, x₁⟩, hx, heq⟩ := hx
  obtain ⟨⟨y₂, x₂⟩, hx', heq'⟩ := hx'
  cases heq
  cases heq'
  exact snd_eq_of_zip hys hx hx'

theorem exists_mem_zip {α β : Type} {xs : List α} {ys : List β} (hlength : ys.length = xs.length)
    {x : α} (hx : x ∈ xs) : ∃ y, (x, y) ∈ xs.zip ys := by
  obtain ⟨i, hi, rfl⟩ := List.mem_iff_getElem.mp hx
  have hzip : i < (xs.zip ys).length := by
    rw [List.length_zip, hlength, Nat.min_self]
    exact hi
  refine ⟨ys[i], List.mem_iff_getElem.mpr ⟨i, hzip, ?_⟩⟩
  rw [List.getElem_zip]

/-- An object in which an element is being read: its clones hold the declared children so far, and
the other leaves are attributes. -/
structure IsOpen (schema : Schema) (heap : Heap) (top : ℕ) (cls : Class) (name : Text)
    (space : Option Text) (clones : List ℕ) (results : List Result) : Prop where
  length : clones.length = cls.scope.items.length
  nodup : clones.Nodup
  old : ∀ clone ∈ clones, schema.size ≤ clone
  element : ∃ attributes, heap.elements[top]? = some ⟨cls, name, space, attributes⟩ ∧
    attributes.items = ((cls.scope.items.zip clones).map fun pair => (pair.1.1, .node pair.2)) ++
      (leavesOf results).map fun leaf => (leaf.1, .value (.text leaf.2))
  nodes : ∀ entry clone, (entry, clone) ∈ cls.scope.items.zip clones → ∃ value cloned,
    heap.nodes[clone]? = some ⟨(schema.declared entry.2).kind, (schema.declared entry.2).hint,
      value, some top, some entry.1, cloned⟩ ∧
    Holds heap (top + 1) value
      (stored (schema.declared entry.2).kind (childrenNamed entry.1 results))

section

variable {schema : Schema} {heap : Heap}

theorem setattr_get {self : ℕ} {element : ResponseElement} (name : Text) (value : Attribute)
    (hget : heap.elements[self]? = some element) :
    (heap.setattr self name value).elements[self]? =
      some { element with attributes := element.attributes.set name value } := by
  change (heap.elements.modify self _)[self]? = _
  rw [List.getElem?_modify_eq, hget]
  rfl

theorem setattr_get_ne {self other : ℕ} (name : Text) (value : Attribute) (hne : other ≠ self) :
    (heap.setattr self name value).elements[other]? = heap.elements[other]? := by
  change (heap.elements.modify self _)[other]? = _
  rw [List.getElem?_modify_ne _ _ hne.symm]

theorem setattr_length {self : ℕ} (name : Text) (value : Attribute) :
    (heap.setattr self name value).elements.length = heap.elements.length :=
  List.length_modify _ _ _

/-- The clones that an object sets up, one after the other. -/
theorem exists_setup (hheap : Respects schema heap) {self : ℕ} {cls : Class} {name : Text}
    {space : Option Text} {attributes : OrderedDict Text Attribute}
    (hget : heap.elements[self]? = some ⟨cls, name, space, attributes⟩)
    {declared : List (Text × ℕ)} (hdeclared : ∀ entry ∈ declared, entry.2 < schema.size)
    (hnodup : (declared.map Prod.fst).Nodup)
    (hnew : ∀ entry ∈ declared, entry.1 ∉ attributes.keys) :
    ∃ clones attributes', clones.length = declared.length ∧ clones.Nodup ∧
      (∀ clone ∈ clones, heap.nodes.length ≤ clone) ∧
      (declared.foldl (setup self) heap).elements[self]? = some ⟨cls, name, space, attributes'⟩ ∧
      attributes'.items = attributes.items ++
        ((declared.zip clones).map fun pair => (pair.1.1, .node pair.2)) ∧
      (∀ entry clone, (entry, clone) ∈ declared.zip clones →
        (declared.foldl (setup self) heap).nodes[clone]? =
          some ⟨(schema.declared entry.2).kind, (schema.declared entry.2).hint,
            (schema.declared entry.2).kind.initial, some self, some entry.1, none⟩) ∧
      (declared.foldl (setup self) heap).elements.length = heap.elements.length ∧
      Frame schema heap self [] (declared.foldl (setup self) heap) := by
  induction declared generalizing heap attributes with
  | nil =>
      exact ⟨[], attributes, rfl, List.nodup_nil, (fun _ h => nomatch h), hget,
        (List.append_nil _).symm, (fun _ _ h => nomatch h), rfl, Frame.refl heap self []⟩
  | cons entry declared ih =>
      obtain ⟨hentry, hrest⟩ := List.forall_mem_cons.mp hdeclared
      obtain ⟨hentryNew, hrestNew⟩ := List.forall_mem_cons.mp hnew
      rw [List.map_cons, List.nodup_cons] at hnodup
      obtain ⟨node, hnode, hkind, hhint⟩ := hheap entry.2 hentry
      have hsetup : (setup self heap entry).nodes = heap.nodes.set entry.2
          { node with parent := some self, name := some entry.1
                      clone := some heap.nodes.length } ++
          [⟨node.kind, node.hint, node.kind.initial, some self, some entry.1, none⟩] := by
        rw [setup, hnode]
        rfl
      have hlength : (setup self heap entry).nodes.length = heap.nodes.length + 1 := by
        rw [hsetup, List.length_append, List.length_set, List.length_singleton]
      have hattr : (setup self heap entry).elements =
          (heap.setattr self entry.1 (.node heap.nodes.length)).elements := by
        rw [setup, hnode]
        rfl
      have hself : (setup self heap entry).elements[self]? = some ⟨cls, name, space,
          attributes.set entry.1 (.node heap.nodes.length)⟩ := by
        rw [hattr, setattr_get _ _ hget]
      have hitems : (attributes.set entry.1 (.node heap.nodes.length)).items =
          attributes.items ++ [(entry.1, .node heap.nodes.length)] :=
        OrderedDict.items_set_of_notMem hentryNew
      have hframe : Frame schema heap self [] (setup self heap entry) := by
        refine ⟨?_, ?_, fun ref _ hne => ?_, fun ref hle hlt _ => ?_⟩
        · rw [hattr, setattr_length]
        · rw [hlength]
          exact Nat.le_succ _
        · rw [hattr, setattr_get_ne _ _ hne]
        · rw [hsetup, List.getElem?_append_left (by rwa [List.length_set]),
            List.getElem?_set_ne (hentry.trans_le hle).ne]
      have hheap' := (Keeps.setup self heap entry).respects hheap
      have hrestNew' : ∀ later ∈ declared,
          later.1 ∉ (attributes.set entry.1 (.node heap.nodes.length)).keys := by
        intro later hlater hin
        rw [OrderedDict.keys, hitems, List.map_append, List.mem_append] at hin
        rcases hin with hin | hin
        · exact hrestNew later hlater hin
        · exact hnodup.1 ((List.mem_singleton.mp hin) ▸ List.mem_map_of_mem hlater)
      obtain ⟨clones, attributes', hclones, hdistinct, hold, hself', hitems', hnodes, helements,
        hframe'⟩ := ih hheap' hself hrest hnodup.2 hrestNew'
      rw [hlength] at hold
      have hfirst : heap.nodes.length ∉ clones := fun hin => Nat.not_succ_le_self _ (hold _ hin)
      refine ⟨heap.nodes.length :: clones, attributes', by rw [List.length_cons, hclones,
        List.length_cons], List.nodup_cons.mpr ⟨hfirst, hdistinct⟩, ?_, hself', ?_, ?_, ?_,
        hframe.trans hframe'⟩
      · refine List.forall_mem_cons.mpr ⟨le_rfl, fun clone hclone => ?_⟩
        exact (Nat.le_succ _).trans (hold clone hclone)
      · rw [hitems', hitems, List.append_assoc]
        rfl
      · intro entry' clone hin
        rw [List.zip_cons_cons, List.mem_cons] at hin
        rcases hin with hin | hin
        · cases hin
          have hlt : heap.nodes.length < (setup self heap entry).nodes.length := by
            rw [hlength]
            exact Nat.lt_succ_self _
          have hle : (heap.nodes.set entry.2
              { node with parent := some self, name := some entry.1
                          clone := some heap.nodes.length }).length ≤ heap.nodes.length := by
            rw [List.length_set]
          rw [List.foldl_cons, hframe'.nodes _ hheap.size_le hlt List.not_mem_nil, hsetup,
            List.getElem?_append_right hle, List.length_set, Nat.sub_self, ← hkind, ← hhint]
          rfl
        · exact hnodes entry' clone hin
      · rw [List.foldl_cons, helements, hattr, setattr_length]

theorem declared_of_empty (cls : Class) (name : Text) (space : Option Text) :
    (⟨cls, name, space, .empty⟩ : ResponseElement).declared = cls.scope.items := by
  have hall : cls.scope.items.filter (fun entry =>
      !(OrderedDict.empty : OrderedDict Text Attribute).contains entry.1) = cls.scope.items :=
    List.filter_eq_self.mpr fun _ _ => rfl
  change (([] : List (Text × Attribute)) ++ ((cls.scope.items.filter _).map _)).filterMap _ = _
  rw [hall, List.nil_append, List.filterMap_map]
  exact List.filterMap_some

/-- A new object is open. -/
theorem exists_init (hheap : Respects schema heap) {cls : Class}
    (hcls : ∀ entry ∈ cls.scope.items, entry.2 < schema.size) (name : Option Text)
    {parent : Option ℕ} {inherited : Option Text}
    (hparent : (parent.bind fun parent => heap.elements[parent]?).bind ResponseElement.space =
      inherited) :
    ∃ clones, IsOpen schema (init cls name parent heap).2 heap.elements.length cls
        (name.getD cls.name) (cls.namespace?.or inherited) clones [] ∧
      (∀ clone ∈ clones, heap.nodes.length ≤ clone) ∧
      (init cls name parent heap).2.elements.length = heap.elements.length + 1 ∧
      Frame schema heap heap.elements.length [] (init cls name parent heap).2 := by
  subst hparent
  let inherited := (parent.bind fun parent => heap.elements[parent]?).bind ResponseElement.space
  let self : ResponseElement := ⟨cls, name.getD cls.name, cls.namespace?.or inherited, .empty⟩
  let added : Heap := { heap with elements := heap.elements ++ [self] }
  have hinit : (init cls name parent heap).2 =
      cls.scope.items.foldl (setup heap.elements.length) added := by
    rw [← declared_of_empty cls (name.getD cls.name) (cls.namespace?.or inherited)]
    rfl
  have hadded : added.elements.length = heap.elements.length + 1 := List.length_append
  have hself : added.elements[heap.elements.length]? = some self := List.getElem?_concat_length
  have hrespects : Respects schema added := hheap
  obtain ⟨clones, attributes, hclones, hdistinct, hold, hget, hitems, hnodes, helements, hframe⟩ :=
    exists_setup hrespects hself hcls cls.scope.nodup fun _ _ => List.not_mem_nil
  rw [hinit]
  refine ⟨clones, ⟨hclones, hdistinct, fun clone hclone => hheap.size_le.trans (hold clone hclone),
    ⟨attributes, hget, ?_⟩, fun entry clone hin => ⟨_, _, hnodes entry clone hin, ?_⟩⟩, hold,
    helements.trans hadded, ?_⟩
  · rw [hitems]
    exact (List.append_nil _).symm
  · cases (schema.declared entry.2).kind with
    | element => exact .none
    | memberList => exact .none
    | elementList => exact .list rfl fun _ h => nomatch h
    | simpleList => exact .list rfl fun _ h => nomatch h
  · refine ⟨?_, hframe.nodesLength, fun ref hlt hne => ?_, hframe.nodes⟩
    · rw [helements, hadded]
      exact Nat.le_succ _
    · rw [hframe.elements ref (hadded ▸ Nat.lt_succ_of_lt hlt) hne]
      exact List.getElem?_append_left hlt

variable {self : ℕ} {cls : Class} {name : Text} {space : Option Text} {clones : List ℕ}
  {results : List Result}

theorem childrenNamed_append (name : Text) (results results' : List Result) :
    childrenNamed name (results ++ results') =
      childrenNamed name results ++ childrenNamed name results' :=
  List.filterMap_append

theorem leavesOf_append (results results' : List Result) :
    leavesOf (results ++ results') = leavesOf results ++ leavesOf results' :=
  List.filterMap_append

theorem childrenNamed_self (name : Text) (parsed : Parsed) :
    childrenNamed name [.child name parsed] = [parsed] := by
  rw [childrenNamed, List.filterMap_cons]
  dsimp only
  rw [if_pos rfl]
  rfl

theorem childrenNamed_ne {name other : Text} (hne : other ≠ name) (parsed : Parsed) :
    childrenNamed name [.child other parsed] = [] := by
  rw [childrenNamed, List.filterMap_cons]
  dsimp only
  rw [if_neg hne]
  rfl

namespace IsOpen

/-- The entries of a class have names of their own. -/
theorem entry_eq_of_name {entry entry' : Text × ℕ} (hentry : entry ∈ cls.scope.items)
    (hentry' : entry' ∈ cls.scope.items) (hname : entry.1 = entry'.1) : entry = entry' :=
  List.inj_on_of_nodup_map cls.scope.nodup hentry hentry' hname

/-- A clone takes one more child. -/
theorem child (hopen : IsOpen schema heap self cls name space clones results) {entry : Text × ℕ}
    {clone : ℕ} (hin : (entry, clone) ∈ cls.scope.items.zip clones) {after : Heap}
    {parsed : Parsed} (helement : after.elements[self]? = heap.elements[self]?)
    (hkept : ∀ ref element, self + 1 ≤ ref → heap.elements[ref]? = some element →
      after.elements[ref]? = some element)
    (hnodes : ∀ other ∈ clones, other ≠ clone → after.nodes[other]? = heap.nodes[other]?)
    (hnode : ∃ value cloned, after.nodes[clone]? = some ⟨(schema.declared entry.2).kind,
        (schema.declared entry.2).hint, value, some self, some entry.1, cloned⟩ ∧
      Holds after (self + 1) value (stored (schema.declared entry.2).kind
        (childrenNamed entry.1 results ++ [parsed]))) :
    IsOpen schema after self cls name space clones (results ++ [.child entry.1 parsed]) := by
  obtain ⟨attributes, hget, hitems⟩ := hopen.element
  refine ⟨hopen.length, hopen.nodup, hopen.old, ⟨attributes, helement.trans hget, ?_⟩, ?_⟩
  · rw [leavesOf_append]
    exact hitems.trans (by rw [show leavesOf [.child entry.1 parsed] = [] from rfl, List.append_nil])
  · intro entry' clone' hin'
    rw [childrenNamed_append]
    by_cases hclone : clone' = clone
    · subst hclone
      have hentry : entry' = entry := fst_eq_of_zip hopen.nodup hin' hin
      subst hentry
      rw [childrenNamed_self]
      exact hnode
    · obtain ⟨value, cloned, hvalue, hholds⟩ := hopen.nodes entry' clone' hin'
      have hname : entry.1 ≠ entry'.1 := by
        intro hname
        have hentry := entry_eq_of_name (List.of_mem_zip hin).1 (List.of_mem_zip hin').1 hname
        subst hentry
        exact hclone (snd_eq_of_zip (List.Nodup.of_map _ cls.scope.nodup) hin' hin)
      rw [childrenNamed_ne hname, List.append_nil]
      exact ⟨value, cloned, by rw [hnodes clone' (List.of_mem_zip hin').2 hclone, hvalue],
        hholds.mono le_rfl hkept⟩

theorem mem_keys_iff {attributes : OrderedDict Text Attribute}
    (hitems : attributes.items =
      ((cls.scope.items.zip clones).map fun pair => (pair.1.1, .node pair.2)) ++
        (leavesOf results).map fun leaf => (leaf.1, .value (.text leaf.2)))
    (hlength : clones.length = cls.scope.items.length) (other : Text) :
    other ∈ attributes.keys ↔ other ∈ cls.scope.keys ∨ other ∈ (leavesOf results).map Prod.fst := by
  have hzip : (cls.scope.items.zip clones).map (fun pair => pair.1.1) = cls.scope.keys := by
    have hmap := List.map_map (f := Prod.fst) (g := Prod.fst) (l := cls.scope.items.zip clones)
    rw [List.map_fst_zip hlength.ge] at hmap
    exact hmap.symm
  rw [OrderedDict.keys, hitems, List.map_append, List.map_map, List.map_map, List.mem_append,
    ← hzip]
  rfl

/-- One more leaf is an attribute. -/
theorem leaf (hopen : IsOpen schema heap self cls name space clones results) {leafName : Text}
    (hdeclared : leafName ∉ cls.scope.keys) (hnew : leafName ∉ (leavesOf results).map Prod.fst)
    (value : Text) :
    IsOpen schema (heap.setattr self leafName (.value (.text value))) self cls name space clones
      (results ++ [.leaf leafName value]) := by
  obtain ⟨attributes, hget, hitems⟩ := hopen.element
  have hkey : leafName ∉ attributes.keys := by
    rw [mem_keys_iff hitems hopen.length]
    exact not_or.mpr ⟨hdeclared, hnew⟩
  refine ⟨hopen.length, hopen.nodup, hopen.old, ⟨attributes.set leafName (.value (.text value)),
    setattr_get _ _ hget, ?_⟩, ?_⟩
  · rw [OrderedDict.items_set_of_notMem hkey, hitems, leavesOf_append, List.map_append,
      List.append_assoc]
    rfl
  · intro entry clone hin
    obtain ⟨found, cloned, hfound, hholds⟩ := hopen.nodes entry clone hin
    rw [childrenNamed_append, show childrenNamed entry.1 [.leaf leafName value] = [] from rfl,
      List.append_nil]
    refine ⟨found, cloned, hfound, hholds.mono le_rfl fun ref element hle helement => ?_⟩
    rw [setattr_get_ne _ _ (Nat.lt_of_succ_le hle).ne', helement]

/-- A declared attribute is a clone. -/
theorem getattr_of_declared (hopen : IsOpen schema heap self cls name space clones results)
    {attr : Text} {ref : ℕ} (hscope : cls.scope.get? attr = some ref) :
    ∃ clone element, ((attr, ref), clone) ∈ cls.scope.items.zip clones ∧
      heap.elements[self]? = some element ∧ element.name = name ∧ element.space = space ∧
      element.getattr attr = some (.node clone) := by
  obtain ⟨attributes, hget, hitems⟩ := hopen.element
  obtain ⟨clone, hin⟩ := exists_mem_zip hopen.length (OrderedDict.get?_eq_some_iff.mp hscope)
  refine ⟨clone, _, hin, hget, rfl, rfl, ?_⟩
  have hattr : attributes.get? attr = some (.node clone) := by
    rw [OrderedDict.get?_eq_some_iff, hitems]
    exact List.mem_append_left _ (List.mem_map.mpr ⟨_, hin, rfl⟩)
  rw [ResponseElement.getattr, hattr]
  rfl

end IsOpen

/-! ## One element -/

theorem reads_text (tag : Text) (top : ℕ) (content : Text) (heap : Heap) :
    Reads methods tag top [.text content] heap heap := by
  intro rest text
  refine ⟨text ++ content, ?_⟩
  rw [Node.eventsOf, Node.events, Node.eventsOf, List.append_nil, XmlHandler.run_characters]

/-- An element without elements is as good as one with its text. -/
theorem eventsOf_leaf {inner : List Node} (hinner : elementNames inner = []) (tag : Text) :
    Node.eventsOf [.element tag inner] = Node.eventsOf [.leaf tag (contentOf inner)] := by
  have hcontent : Node.eventsOf inner = (contentOf inner).map .characters := by
    induction inner with
    | nil => rfl
    | cons node inner ih =>
        cases node with
        | text content =>
            rw [Node.eventsOf, Node.events, ih hinner, contentOf, List.map_append]
        | element name children => cases hinner
  rw [Node.eventsOf_element, Node.eventsOf_leaf, hcontent]

theorem reads_of_eventsOf {tag : Text} {top : ℕ} {nodes nodes' : List Node} {before after : Heap}
    (hread : Reads methods tag top nodes' before after)
    (hevents : Node.eventsOf nodes = Node.eventsOf nodes') :
    Reads methods tag top nodes before after := by
  intro rest text
  rw [hevents]
  exact hread rest text

/-- The start of an element in an object with another name. -/
theorem startElement_eq {element : ResponseElement} {tag : Text}
    (hget : heap.elements[self]? = some element)
    (hname : stripNamespace element.space tag ≠ element.name)
    (htwice : stripNamespace element.space (stripNamespace element.space tag) =
      stripNamespace element.space tag) :
    methods.startElement self tag heap = elementStart element tag heap := by
  change (match heap.elements[self]? with
    | none => (none, heap)
    | some self =>
        if self.cls.isResponse = true then
          let name := stripNamespace self.space tag
          if name = self.name then (none, heap) else elementStart self name heap
        else elementStart self tag heap) = _
  rw [hget]
  dsimp only
  by_cases hresponse : element.cls.isResponse = true
  · rw [if_pos hresponse, if_neg hname, elementStart, elementStart, htwice]
  · rw [if_neg hresponse]

/-- The end of an element in an object with another name. -/
theorem endElement_eq {element : ResponseElement} {tag : Text} (value : Text)
    (hget : heap.elements[self]? = some element)
    (hname : stripNamespace element.space tag ≠ element.name) :
    methods.endElement self tag value heap =
      match element.getattr (stripNamespace element.space tag) with
      | some (.node node) => .ok (endOf node value heap)
      | _ =>
          if isProperty element.cls (stripNamespace element.space tag) = true then
            .error (.attributeError "can't set attribute")
          else .ok (heap.setattr self (stripNamespace element.space tag) (.value (.text value))) := by
  change (match heap.elements[self]? with
    | none => (Except.ok heap : Except PyError Heap)
    | some element =>
        let name := stripNamespace element.space tag
        if name = element.name then element.declared.foldlM teardown heap
        else
          match element.getattr name with
          | some (.node node) => .ok (endOf node value heap)
          | _ =>
              if isProperty element.cls name = true then
                .error (.attributeError "can't set attribute")
              else .ok (heap.setattr self name (.value (.text value)))) = _
  rw [hget]
  dsimp only
  rw [if_neg hname]

theorem isProperty_of_notMem {attr : Text} (hown : attr ∉ ownNames) (cls : Class) :
    isProperty cls attr = false := by
  have hne : ∀ own ∈ ownNames, attr ≠ own := fun own hmem heq => hown (heq ▸ hmem)
  have hconnection := hne "connection".toList (by decide)
  have hresult := hne "_result".toList (by decide)
  have haction := hne "_action".toList (by decide)
  rw [isProperty, decide_eq_false hconnection, decide_eq_false hresult, decide_eq_false haction]
  cases cls.scope.contains attr <;> cases cls.isResponse <;> rfl

theorem setattr_frame (name : Text) (value : Attribute) :
    Frame schema heap self clones (heap.setattr self name value) :=
  ⟨(setattr_length name value).ge, le_rfl, fun _ _ hne => setattr_get_ne name value hne,
    fun _ _ _ _ => rfl⟩

theorem setValue_frame {clone : ℕ} (hclone : clone ∈ clones) (value : Value) :
    Frame schema heap self clones (heap.setValue clone value) := by
  refine ⟨le_rfl, (List.length_modify _ _ _).ge, fun _ _ _ => rfl, fun ref _ _ hin => ?_⟩
  change (heap.nodes.modify clone _)[ref]? = _
  have hne : clone ≠ ref := by
    rintro rfl
    exact hin hclone
  rw [List.getElem?_modify_ne _ _ hne]

theorem setValue_get {clone : ℕ} {node : DeclarativeType} (value : Value)
    (hget : heap.nodes[clone]? = some node) :
    (heap.setValue clone value).nodes[clone]? = some { node with value := value } := by
  change (heap.nodes.modify clone _)[clone]? = _
  rw [List.getElem?_modify_eq, hget]
  rfl

theorem setValue_get_ne {clone other : ℕ} (value : Value) (hne : other ≠ clone) :
    (heap.setValue clone value).nodes[other]? = heap.nodes[other]? := by
  change (heap.nodes.modify clone _)[other]? = _
  rw [List.getElem?_modify_ne _ _ hne.symm]

/-- A leaf that is not declared. -/
theorem reads_leaf (hheap : Respects schema heap)
    (hopen : IsOpen schema heap self cls name space clones results) {tag top : Text}
    {inner : List Node} (htag : top ≠ tag) (hname : stripNamespace space tag ≠ name)
    (hown : stripNamespace space tag ∉ ownNames)
    (htwice : stripNamespace space (stripNamespace space tag) = stripNamespace space tag)
    (hinner : elementNames inner = []) (hscope : cls.scope.get? (stripNamespace space tag) = none)
    (hnew : stripNamespace space tag ∉ (leavesOf results).map Prod.fst) :
    ∃ after, Reads methods top self [.element tag inner] heap after ∧
      IsOpen schema after self cls name space clones
        (results ++ [.leaf (stripNamespace space tag) (contentOf inner)]) ∧
      Frame schema heap self clones after ∧ Respects schema after := by
  obtain ⟨attributes, hget, hitems⟩ := hopen.element
  have hdeclared : stripNamespace space tag ∉ cls.scope.keys :=
    OrderedDict.get?_eq_none_iff.mp hscope
  have hkey : attributes.get? (stripNamespace space tag) = none := by
    rw [OrderedDict.get?_eq_none_iff, IsOpen.mem_keys_iff hitems hopen.length]
    exact not_or.mpr ⟨hdeclared, hnew⟩
  have hattr : (⟨cls, name, space, attributes⟩ : ResponseElement).getattr
      (stripNamespace space tag) = none := by
    rw [ResponseElement.getattr, hkey, hscope]
    rfl
  refine ⟨_, ?_, hopen.leaf hdeclared hnew (contentOf inner), setattr_frame _ _,
    (Keeps.setattr _ _ _ _).respects hheap⟩
  have hstart : methods.startElement self tag heap = (none, heap) := by
    rw [startElement_eq hget hname htwice, elementStart, hattr]
  have hend : methods.endElement self tag (contentOf inner) heap = .ok (heap.setattr self
      (stripNamespace space tag) (.value (.text (contentOf inner)))) := by
    rw [endElement_eq _ hget hname, hattr]
    dsimp only
    rw [isProperty_of_notMem hown, if_neg Bool.false_ne_true]
  exact reads_of_eventsOf (Reads.leaf htag hstart hend) (eventsOf_leaf hinner tag)

/-- An element of a `SimpleList`. -/
theorem reads_simple (hheap : Respects schema heap)
    (hopen : IsOpen schema heap self cls name space clones results) {tag top : Text}
    {inner : List Node} (htag : top ≠ tag) (hname : stripNamespace space tag ≠ name)
    (htwice : stripNamespace space (stripNamespace space tag) = stripNamespace space tag)
    (hinner : elementNames inner = []) {ref : ℕ}
    (hscope : cls.scope.get? (stripNamespace space tag) = some ref)
    (hkind : (schema.declared ref).kind = .simpleList) :
    ∃ after, Reads methods top self [.element tag inner] heap after ∧
      IsOpen schema after self cls name space clones
        (results ++ [.child (stripNamespace space tag) (.text (contentOf inner))]) ∧
      Frame schema heap self clones after ∧ Respects schema after := by
  obtain ⟨clone, element, hin, hget, hname', hspace, hattr⟩ := hopen.getattr_of_declared hscope
  obtain ⟨value, cloned, hnode, hholds⟩ := hopen.nodes _ _ hin
  dsimp only at hnode hholds
  subst hname'
  subst hspace
  rw [hkind] at hnode hholds
  have hclone := (List.of_mem_zip hin).2
  cases hholds with
  | @list items _ hlength hitems =>
      have hstart : methods.startElement self tag heap = (none, heap) := by
        rw [startElement_eq hget hname htwice, elementStart, hattr]
        dsimp only
        rw [start, hnode]
      have hend : methods.endElement self tag (contentOf inner) heap =
          .ok (heap.setValue clone (.list (items ++ [.text (contentOf inner)]))) := by
        rw [endElement_eq _ hget hname, hattr]
        dsimp only
        rw [endOf, hnode]
      refine ⟨heap.setValue clone (.list (items ++ [.text (contentOf inner)])), ?_,
        hopen.child hin rfl (fun _ _ _ h => h) (fun other _ hne => setValue_get_ne _ hne) ?_,
        setValue_frame hclone _, (Keeps.setValue _ _ _).respects hheap⟩
      · exact reads_of_eventsOf (Reads.leaf htag hstart hend) (eventsOf_leaf hinner tag)
      · dsimp only
        rw [hkind]
        exact ⟨_, _, setValue_get _ hnode, ((Holds.list hlength hitems).append (.text _)).mono le_rfl
          fun _ _ _ h => h⟩

/-! ## The end of an object -/

/-- What a list of members has to be read from: an object with the attribute `member`. -/
def HasMember (parsed : Parsed) : Prop :=
  ∃ entries found, parsed = .object entries ∧ entries.lookup "member".toList = some found

theorem fst_eq_of_mem_zip {α β γ : Type} {xs : List (α × β)} {ys : List (α × γ)}
    (hnames : xs.map Prod.fst = ys.map Prod.fst) {x : α × β} {y : α × γ}
    (hin : (x, y) ∈ xs.zip ys) : x.1 = y.1 := by
  have hall : List.Forall₂ (fun (x : α × β) (y : α × γ) => x.1 = y.1) xs ys :=
    List.forall₂_map_left_iff.mp (List.forall₂_map_right_iff.mp
      (List.forall₂_eq_eq_eq (α := α) ▸ hnames))
  exact (List.forall₂_iff_zip.mp hall).2 hin

/-- The attributes of an object that was read. -/
theorem exists_attributes {least made : ℕ} {entries : List (Text × Parsed)}
    (hholds : Holds heap least (.object made) (.object entries)) :
    ∃ element, heap.elements[made]? = some element ∧
      element.attributes.keys = entries.map Prod.fst ∧
      ∀ attr parsed, (attr, parsed) ∈ entries → ∃ value,
        element.attributes.get? attr = some (.value value) ∧ Holds heap least value parsed := by
  cases hholds with
  | @object _ element values _ _ hget hattributes hnames hvalues =>
      refine ⟨element, hget, ?_, fun attr parsed hmem => ?_⟩
      · rw [← hnames, OrderedDict.keys, hattributes, List.map_map]
        rfl
      · have hlength : values.length = entries.length := by
          rw [← List.length_map (f := Prod.fst), hnames, List.length_map]
        obtain ⟨value', hswapped⟩ := exists_mem_zip hlength hmem
        rw [← List.zip_swap, List.mem_map] at hswapped
        obtain ⟨⟨value, entry⟩, hin, hswap⟩ := hswapped
        cases hswap
        refine ⟨value.2, ?_, hvalues _ hin⟩
        have hname : value.1 = attr := fst_eq_of_mem_zip hnames hin
        rw [OrderedDict.get?_eq_some_iff, hattributes, ← hname]
        exact List.mem_map.mpr ⟨value, (List.of_mem_zip hin).1, rfl⟩

/-- The members of an object that was read. -/
theorem exists_member {least made : ℕ} {entries : List (Text × Parsed)} {found : Parsed}
    (hholds : Holds heap least (.object made) (.object entries))
    (hlookup : entries.lookup "member".toList = some found) :
    ∃ element value, heap.elements[made]? = some element ∧
      element.getattr "member".toList = some (.value value) ∧ Holds heap least value found := by
  obtain ⟨before, after, hentries, _⟩ := List.lookup_eq_some_iff.mp hlookup
  have hmem : ("member".toList, found) ∈ entries := by
    rw [hentries]
    exact List.mem_append_right _ List.mem_cons_self
  obtain ⟨element, hget, _, hattributes⟩ := exists_attributes hholds
  obtain ⟨value, hattr, hvalue⟩ := hattributes _ _ hmem
  refine ⟨element, value, hget, ?_, hvalue⟩
  rw [ResponseElement.getattr, hattr]
  rfl

/-- The value that a clone leaves. -/
theorem exists_finish {node : DeclarativeType} {children : List Parsed} {least : ℕ}
    (hholds : Holds heap least node.value (stored node.kind children))
    (hmember : node.kind = .memberList → ∀ parsed ∈ children, HasMember parsed) :
    ∃ value, finish node heap = .ok (value, heap) ∧
      Holds heap least value (held node.kind children) := by
  obtain ⟨kind, hint, value, parent, nodeName, cloned⟩ := node
  cases kind with
  | element => exact ⟨value, rfl, hholds⟩
  | elementList => exact ⟨value, rfl, hholds⟩
  | simpleList => exact ⟨value, rfl, hholds⟩
  | memberList =>
      cases children with
      | nil =>
          cases hholds
          exact ⟨.list [], rfl, .list rfl fun _ h => nomatch h⟩
      | cons parsed children =>
          obtain ⟨entries, found, rfl, hlookup⟩ := hmember rfl parsed List.mem_cons_self
          have hobject : Holds heap least value (.object entries) := hholds
          cases value with
          | none => cases hobject
          | text value => cases hobject
          | list items => cases hobject
          | object made =>
              obtain ⟨element, value, hget, hattr, hvalue⟩ := exists_member hobject hlookup
              refine ⟨value, ?_, ?_⟩
              · rw [finish]
                dsimp only
                rw [hget, Option.bind_some, hattr]
              · change Holds heap least value ((entries.lookup "member".toList).getD .none)
                rw [hlookup]
                exact hvalue

theorem items_set_of_split {attributes : OrderedDict Text Attribute}
    {before after : List (Text × Attribute)} {attr : Text} {old : Attribute}
    (hitems : attributes.items = before ++ (attr, old) :: after) (value : Attribute) :
    (attributes.set attr value).items = before ++ (attr, value) :: after := by
  have hnodup := attributes.nodup
  rw [hitems, List.map_append, List.map_cons, List.nodup_append] at hnodup
  have hbefore : attr ∉ before.map Prod.fst := fun hin =>
    hnodup.2.2 attr hin attr List.mem_cons_self rfl
  have hset : ∀ before : List (Text × Attribute), attr ∉ before.map Prod.fst →
      OrderedDict.setItems attr value (before ++ (attr, old) :: after) =
        before ++ (attr, value) :: after := by
    intro before hnot
    induction before with
    | nil => exact if_pos rfl
    | cons item before ih =>
        rw [List.map_cons, List.mem_cons, not_or] at hnot
        rw [List.cons_append, OrderedDict.setItems, if_neg (Ne.symm hnot.1), ih hnot.2]
        rfl
  change OrderedDict.setItems attr value attributes.items = _
  rw [hitems, hset before hbefore]

/-- The end of the clones of an object. -/
theorem exists_teardown (children : Text → List Parsed) {rest : List (Text × Attribute)}
    {pairs : List ((Text × ℕ) × ℕ)} {done : List (Text × Value)}
    {attributes : OrderedDict Text Attribute}
    (hget : heap.elements[self]? = some ⟨cls, name, space, attributes⟩)
    (hitems : attributes.items = (done.map fun value => (value.1, .value value.2)) ++
      ((pairs.map fun pair => (pair.1.1, .node pair.2)) ++ rest))
    (hnodup : (pairs.map Prod.snd).Nodup)
    (hnodes : ∀ pair ∈ pairs, ∃ value cloned, heap.nodes[pair.2]? =
        some ⟨(schema.declared pair.1.2).kind, (schema.declared pair.1.2).hint, value, some self,
          some pair.1.1, cloned⟩ ∧
      Holds heap (self + 1) value
        (stored (schema.declared pair.1.2).kind (children pair.1.1)))
    (hmember : ∀ pair ∈ pairs, (schema.declared pair.1.2).kind = .memberList →
      ∀ parsed ∈ children pair.1.1, HasMember parsed) :
    ∃ after values attributes', (pairs.map fun pair => (pair.1.1, pair.2)).foldlM teardown heap =
        .ok after ∧
      after.elements[self]? = some ⟨cls, name, space, attributes'⟩ ∧
      attributes'.items = ((done ++ values).map fun value => (value.1, .value value.2)) ++ rest ∧
      List.Forall₂ (fun pair value => value.1 = pair.1.1 ∧ Holds after (self + 1) value.2
        (held (schema.declared pair.1.2).kind (children pair.1.1))) pairs values ∧
      Frame schema heap self (pairs.map Prod.snd) after ∧ Keeps heap after := by
  induction pairs generalizing heap done attributes with
  | nil =>
      refine ⟨heap, [], attributes, rfl, hget, ?_, .nil, Frame.refl _ _ _, Keeps.refl _⟩
      rw [hitems, List.append_nil]
      rfl
  | cons pair pairs ih =>
      obtain ⟨hpair, hpairs⟩ := List.forall_mem_cons.mp hnodes
      obtain ⟨hpairMember, hpairsMember⟩ := List.forall_mem_cons.mp hmember
      rw [List.map_cons, List.nodup_cons] at hnodup
      obtain ⟨value, cloned, hnode, hholds⟩ := hpair
      let node : DeclarativeType := ⟨(schema.declared pair.1.2).kind,
        (schema.declared pair.1.2).hint, value, some self, some pair.1.1, cloned⟩
      have hleft : ∃ value', finish node heap = .ok (value', heap) ∧ Holds heap (self + 1) value'
          (held (schema.declared pair.1.2).kind (children pair.1.1)) :=
        exists_finish hholds hpairMember
      obtain ⟨value', hfinish, hholds'⟩ := hleft
      let next := (heap.setValue pair.2 value').setattr self pair.1.1 (.value value')
      have hteardown : teardown heap (pair.1.1, pair.2) = .ok next := by
        rw [teardown]
        dsimp only
        rw [hnode]
        change finish node heap >>= _ = _
        rw [hfinish]
        rfl
      have hvalued : (heap.setValue pair.2 value').elements[self]? =
          some ⟨cls, name, space, attributes⟩ := hget
      have hnext : next.elements[self]? =
          some ⟨cls, name, space, attributes.set pair.1.1 (.value value')⟩ :=
        setattr_get pair.1.1 (.value value') hvalued
      have hitems' : (attributes.set pair.1.1 (.value value')).items =
          ((done ++ [(pair.1.1, value')]).map fun value => (value.1, .value value.2)) ++
            ((pairs.map fun pair => (pair.1.1, .node pair.2)) ++ rest) := by
        rw [items_set_of_split hitems, List.map_append, List.append_assoc]
        rfl
      have hkept : ∀ ref element, self + 1 ≤ ref → heap.elements[ref]? = some element →
          next.elements[ref]? = some element := by
        intro ref element hle helement
        change ((heap.setValue pair.2 value').setattr self _ _).elements[ref]? = _
        rw [setattr_get_ne _ _ (Nat.lt_of_succ_le hle).ne']
        exact helement
      have hnodes' : ∀ later ∈ pairs, ∃ value cloned, next.nodes[later.2]? =
            some ⟨(schema.declared later.1.2).kind, (schema.declared later.1.2).hint, value,
              some self, some later.1.1, cloned⟩ ∧
          Holds next (self + 1) value
            (stored (schema.declared later.1.2).kind (children later.1.1)) := by
        intro later hlater
        obtain ⟨value, cloned, hvalue, hholds⟩ := hpairs later hlater
        refine ⟨value, cloned, ?_, hholds.mono le_rfl hkept⟩
        have hne : later.2 ≠ pair.2 := by
          intro heq
          exact hnodup.1 (heq ▸ List.mem_map_of_mem hlater)
        exact (setValue_get_ne _ hne).trans hvalue
      obtain ⟨after, values, attributes', hrun, hafter, hattributes, hall, hframe, hkeeps⟩ :=
        ih hnext hitems' hnodup.2 hnodes' hpairsMember
      have hstep : Frame schema heap self (pair.2 :: pairs.map Prod.snd) next :=
        (setValue_frame List.mem_cons_self value').trans (setattr_frame _ _)
      have hrest : Frame schema next self (pair.2 :: pairs.map Prod.snd) after :=
        ⟨hframe.elementsLength, hframe.nodesLength, hframe.elements, fun ref hle hlt hin =>
          hframe.nodes ref hle hlt fun hmem => hin (List.mem_cons_of_mem _ hmem)⟩
      refine ⟨after, (pair.1.1, value') :: values, attributes', ?_, hafter, ?_,
        .cons ⟨rfl, ?_⟩ hall, hstep.trans hrest,
        ((Keeps.setValue _ _ _).trans (Keeps.setattr _ _ _ _)).trans hkeeps⟩
      · rw [List.map_cons, List.foldlM_cons, hteardown]
        exact hrun
      · rw [hattributes, List.append_assoc]
        rfl
      · exact (hholds'.mono le_rfl hkept).frame hframe (Nat.lt_succ_self self)

theorem declared_of_items {attributes : OrderedDict Text Attribute}
    (hitems : attributes.items =
      ((cls.scope.items.zip clones).map fun pair => (pair.1.1, .node pair.2)) ++
        (leavesOf results).map fun leaf => (leaf.1, .value (.text leaf.2)))
    (hlength : clones.length = cls.scope.items.length) :
    (⟨cls, name, space, attributes⟩ : ResponseElement).declared =
      (cls.scope.items.zip clones).map fun pair => (pair.1.1, pair.2) := by
  have hnone : cls.scope.items.filter (fun entry => !attributes.contains entry.1) = [] := by
    refine List.filter_eq_nil_iff.mpr fun entry hentry => ?_
    have hkey : entry.1 ∈ attributes.keys :=
      (IsOpen.mem_keys_iff hitems hlength _).mpr (.inl (List.mem_map_of_mem hentry))
    rw [OrderedDict.contains_iff.mpr hkey]
    exact Bool.false_ne_true
  change (attributes.items ++ ((cls.scope.items.filter _).map _)).filterMap _ = _
  rw [hnone, List.map_nil, List.append_nil, hitems, List.filterMap_append, List.filterMap_map,
    List.filterMap_map]
  have hclones : ∀ pairs : List ((Text × ℕ) × ℕ),
      pairs.filterMap (fun pair => some (pair.1.1, pair.2)) =
        pairs.map fun pair => (pair.1.1, pair.2) := fun pairs => List.filterMap_eq_map ▸ rfl
  have hleaves : (leavesOf results).filterMap (fun _ => (none : Option (Text × ℕ))) = [] :=
    List.filterMap_eq_nil_iff.mpr fun _ _ => rfl
  exact (congrArg₂ List.append (hclones _) hleaves).trans (List.append_nil _)

/-- The end of an object leaves what it has read. -/
theorem exists_close (hopen : IsOpen schema heap self cls name space clones results) {tag : Text}
    (hclose : stripNamespace space tag = name)
    (hmember : ∀ entry ∈ cls.scope.items, (schema.declared entry.2).kind = .memberList →
      ∀ parsed ∈ childrenNamed entry.1 results, HasMember parsed) :
    ∃ after, (∀ value, methods.endElement self tag value heap = .ok after) ∧
      Holds after self (.object self) (assemble schema.declared cls results) ∧
      Frame schema heap self clones after ∧ Keeps heap after := by
  obtain ⟨attributes, hget, hitems⟩ := hopen.element
  have hend : ∀ value, methods.endElement self tag value heap =
      ((cls.scope.items.zip clones).map fun pair => (pair.1.1, pair.2)).foldlM teardown heap := by
    intro value
    change (match heap.elements[self]? with
      | none => (Except.ok heap : Except PyError Heap)
      | some element =>
          let name := stripNamespace element.space tag
          if name = element.name then element.declared.foldlM teardown heap
          else
            match element.getattr name with
            | some (.node node) => .ok (endOf node value heap)
            | _ =>
                if isProperty element.cls name = true then
                  .error (.attributeError "can't set attribute")
                else .ok (heap.setattr self name (.value (.text value)))) = _
    rw [hget]
    dsimp only
    rw [if_pos hclose, declared_of_items hitems hopen.length]
  have hsnd : (cls.scope.items.zip clones).map Prod.snd = clones :=
    List.map_snd_zip hopen.length.le
  have hsplit : attributes.items = ([] : List (Text × Value)).map
      (fun value => (value.1, Attribute.value value.2)) ++
        (((cls.scope.items.zip clones).map fun pair => (pair.1.1, .node pair.2)) ++
          (leavesOf results).map fun leaf => (leaf.1, .value (.text leaf.2))) := hitems
  obtain ⟨after, values, attributes', hrun, hafter, hattributes, hall, hframe, hkeeps⟩ :=
    exists_teardown (fun attr => childrenNamed attr results) hget hsplit (hsnd.symm ▸ hopen.nodup)
      (fun pair hpair => hopen.nodes pair.1 pair.2 hpair)
      fun pair hpair => hmember pair.1 (List.of_mem_zip hpair).1
  rw [hsnd] at hframe
  refine ⟨after, fun value => (hend value).trans hrun, ?_, hframe, hkeeps⟩
  let holds : Text × Value → Text × Parsed → Prop := fun value entry =>
    value.1 = entry.1 ∧ Holds after (self + 1) value.2 entry.2
  have hfst : (cls.scope.items.zip clones).map Prod.fst = cls.scope.items :=
    List.map_fst_zip hopen.length.ge
  have hdeclared : List.Forall₂ holds values (cls.scope.items.map fun entry =>
      (entry.1, held (schema.declared entry.2).kind (childrenNamed entry.1 results))) := by
    rw [← hfst, List.map_map]
    exact List.forall₂_map_right_iff.mpr hall.flip
  have hleaves : List.Forall₂ holds ((leavesOf results).map fun leaf => (leaf.1, .text leaf.2))
      ((leavesOf results).map fun leaf => (leaf.1, .text leaf.2)) := by
    refine List.forall₂_map_left_iff.mpr (List.forall₂_map_right_iff.mpr ?_)
    exact List.forall₂_same.mpr fun leaf _ => ⟨rfl, .text leaf.2⟩
  have hwhole := List.rel_append hdeclared hleaves
  have hvalues : attributes'.items = (values ++ (leavesOf results).map fun leaf =>
      (leaf.1, Value.text leaf.2)).map fun value => (value.1, .value value.2) := by
    rw [hattributes, List.nil_append, List.map_append, List.map_map]
    rfl
  refine .object le_rfl hafter hvalues ?_ ?_
  · exact List.forall₂_eq_eq_eq ▸ (List.forall₂_map_left_iff.mpr (List.forall₂_map_right_iff.mpr
      (hwhole.imp fun _ _ hpair => hpair.1)))
  · rintro ⟨value, entry⟩ hpair
    exact ((List.forall₂_iff_zip.mp hwhole).2 hpair).2.mono (Nat.le_succ self) fun _ _ _ h => h

/-! ## A declared child -/

/-- The start of a child, which is then in the clone. -/
theorem exists_start {clone : ℕ} {kind : Kind} {hint : Class} {value : Value}
    {parent : Option ℕ} {nodeName : Option Text} {cloned : Option ℕ} {least : ℕ}
    {children : List Parsed}
    (hnode : heap.nodes[clone]? = some ⟨kind, hint, value, parent, nodeName, cloned⟩)
    (hkind : kind ≠ .simpleList) (hholds : Holds heap least value (stored kind children))
    (honce : kind ≠ .elementList → children = []) (name : Text) :
    ∃ value', start clone name heap = (some heap.elements.length,
        (init hint (some name) parent heap).2.setValue clone value') ∧
      ∀ after parsed, Holds after least value (stored kind children) →
        Holds after least (.object heap.elements.length) parsed →
        Holds after least value' (stored kind (children ++ [parsed])) := by
  rw [start, hnode]
  cases kind with
  | simpleList => exact absurd rfl hkind
  | element =>
      have hnone := honce nofun
      subst hnone
      exact ⟨_, rfl, fun _ _ _ hobject => hobject⟩
  | memberList =>
      have hnone := honce nofun
      subst hnone
      exact ⟨_, rfl, fun _ _ _ hobject => hobject⟩
  | elementList =>
      cases value with
      | none => cases hholds
      | text value => cases hholds
      | object made => cases hholds
      | list items => exact ⟨_, rfl, fun _ _ hlist hobject => hlist.append hobject⟩

theorem IsOpen.setValue (hopen : IsOpen schema heap self cls name space clones results)
    {clone : ℕ} (hclone : clone ∉ clones) (value : Value) :
    IsOpen schema (heap.setValue clone value) self cls name space clones results := by
  refine ⟨hopen.length, hopen.nodup, hopen.old, hopen.element, fun entry other hin => ?_⟩
  obtain ⟨found, cloned, hfound, hholds⟩ := hopen.nodes entry other hin
  have hne : other ≠ clone := by
    rintro rfl
    exact hclone (List.of_mem_zip hin).2
  exact ⟨found, cloned, (setValue_get_ne value hne).trans hfound,
    hholds.mono le_rfl fun _ _ _ h => h⟩

/-- How the content of an element is read into a new object of a class. -/
def ReadsContent (schema : Schema) (cls : Class) (name : Text) (space : Option Text)
    (tag : Text) (content : List Node) : Prop :=
  ∀ heap top clones, Respects schema heap → IsOpen schema heap top cls name space clones [] →
    ∃ after, Reads methods tag top content heap after ∧
      IsOpen schema after top cls name space clones
        (resultsFrom schema.declared cls space content) ∧
      Frame schema heap top clones after ∧ Respects schema after

/-- An element of an `Element`, an `ElementList` or a `MemberList`. -/
theorem reads_child (hheap : Respects schema heap)
    (hopen : IsOpen schema heap self cls name space clones results) {tag top : Text}
    {inner : List Node} (hname : stripNamespace space tag ≠ name)
    (htwice : stripNamespace space (stripNamespace space tag) = stripNamespace space tag)
    {ref : ℕ} (href : ref < schema.size)
    (hscope : cls.scope.get? (stripNamespace space tag) = some ref)
    (hkind : (schema.declared ref).kind ≠ .simpleList)
    (honce : (schema.declared ref).kind ≠ .elementList →
      childrenNamed (stripNamespace space tag) results = [])
    (hclose : stripNamespace ((schema.declared ref).hint.namespace?.or space) tag =
      stripNamespace space tag)
    (hinner : ReadsContent schema (schema.declared ref).hint (stripNamespace space tag)
      ((schema.declared ref).hint.namespace?.or space) tag inner)
    (hmember : ∀ entry ∈ (schema.declared ref).hint.scope.items,
      (schema.declared entry.2).kind = .memberList → ∀ parsed ∈ childrenNamed entry.1
        (resultsFrom schema.declared (schema.declared ref).hint
          ((schema.declared ref).hint.namespace?.or space) inner), HasMember parsed) :
    ∃ after, Reads methods top self [.element tag inner] heap after ∧
      IsOpen schema after self cls name space clones (results ++
        [.child (stripNamespace space tag) (assemble schema.declared (schema.declared ref).hint
          (resultsFrom schema.declared (schema.declared ref).hint
            ((schema.declared ref).hint.namespace?.or space) inner))]) ∧
      Frame schema heap self clones after ∧ Respects schema after := by
  obtain ⟨clone, element, hin, hget, hname', hspace, hattr⟩ := hopen.getattr_of_declared hscope
  obtain ⟨value, cloned, hnode, hholds⟩ := hopen.nodes _ _ hin
  dsimp only at hnode hholds
  have hclone := (List.of_mem_zip hin).2
  have hcloneLt : clone < heap.nodes.length := (List.getElem?_eq_some_iff.mp hnode).1
  have hself : self < heap.elements.length := (List.getElem?_eq_some_iff.mp hget).1
  obtain ⟨value', hstart, hvalue'⟩ :=
    exists_start hnode hkind hholds honce (stripNamespace space tag)
  have hparent : ((some self).bind fun parent => heap.elements[parent]?).bind
      ResponseElement.space = space := by
    rw [Option.bind_some, hget]
    exact hspace
  obtain ⟨clones', hmade, hold, hlength, hframe₁⟩ := exists_init hheap (schema.closed ref href)
    (some (stripNamespace space tag)) hparent
  have hcloneNew : clone ∉ clones' := fun hin => absurd (hold clone hin) (not_le.mpr hcloneLt)
  have hheap₂ : Respects schema ((init (schema.declared ref).hint
      (some (stripNamespace space tag)) (some self) heap).2.setValue clone value') :=
    ((Keeps.init _ _ _ _).trans (Keeps.setValue _ _ _)).respects hheap
  obtain ⟨read, hread, hopen₃, hframe₃, hheap₃⟩ :=
    hinner _ _ _ hheap₂ (hmade.setValue hcloneNew value')
  obtain ⟨after, hend, hclosed, hframe₄, hkeeps₄⟩ := exists_close hopen₃ hclose hmember
  have hlast := hframe₃.trans hframe₄
  have helements : ∀ other < heap.elements.length,
      after.elements[other]? = heap.elements[other]? := by
    intro other hother
    have hlt : other < (init (schema.declared ref).hint (some (stripNamespace space tag))
        (some self) heap).2.elements.length := hother.trans_le hframe₁.elementsLength
    exact (hlast.elements other hlt hother.ne).trans (hframe₁.elements other hother hother.ne)
  have hnodes : ∀ other, schema.size ≤ other → other < heap.nodes.length →
      after.nodes[other]? = ((init (schema.declared ref).hint (some (stripNamespace space tag))
        (some self) heap).2.setValue clone value').nodes[other]? := by
    intro other hle hother
    refine hlast.nodes other hle ?_ fun hin => absurd (hold other hin) (not_le.mpr hother)
    exact hother.trans_le (hframe₁.nodesLength.trans (List.length_modify _ _ _).ge)
  have hkept : ∀ other element, self + 1 ≤ other → heap.elements[other]? = some element →
      after.elements[other]? = some element := by
    intro other element _ hother
    rw [helements other (List.getElem?_eq_some_iff.mp hother).1, hother]
  have hother : ∀ other, schema.size ≤ other → other < heap.nodes.length → other ≠ clone →
      after.nodes[other]? = heap.nodes[other]? := by
    intro other hle hlt hne
    rw [hnodes other hle hlt, setValue_get_ne _ hne, hframe₁.nodes other hle hlt List.not_mem_nil]
  have hmine : after.nodes[clone]? = some ⟨(schema.declared ref).kind,
      (schema.declared ref).hint, value', some self, some (stripNamespace space tag), cloned⟩ := by
    have hle := hopen.old clone hclone
    have hinit := (hframe₁.nodes clone hle hcloneLt List.not_mem_nil).trans hnode
    rw [hnodes clone hle hcloneLt, setValue_get value' hinit]
  have hfull : Holds after (self + 1) (.object heap.elements.length) _ :=
    hclosed.mono (Nat.succ_le_of_lt hself) fun _ _ _ h => h
  have hcloneNodes : ∀ other ∈ clones, other ≠ clone →
      after.nodes[other]? = heap.nodes[other]? := by
    intro other hmem hne
    obtain ⟨entry, hentry⟩ : ∃ entry, (entry, other) ∈ cls.scope.items.zip clones := by
      obtain ⟨entry, hzip⟩ := exists_mem_zip hopen.length.symm hmem
      rw [← List.zip_swap, List.mem_map] at hzip
      obtain ⟨⟨entry, other'⟩, hzip, hswap⟩ := hzip
      cases hswap
      exact ⟨_, hzip⟩
    obtain ⟨_, _, hfound, _⟩ := hopen.nodes entry other hentry
    exact hother other (hopen.old other hmem) (List.getElem?_eq_some_iff.mp hfound).1 hne
  have hstartElement : methods.startElement self tag heap = (some heap.elements.length,
      (init (schema.declared ref).hint (some (stripNamespace space tag)) (some self)
        heap).2.setValue clone value') := by
    subst hspace
    rw [startElement_eq hget (hname' ▸ hname) htwice, elementStart, hattr]
    exact hstart
  refine ⟨after, Reads.element hstartElement hread hend, hopen.child hin (helements self hself)
    hkept hcloneNodes ⟨value', cloned, hmine, ?_⟩, ⟨?_, ?_, fun other hlt _ => helements other hlt,
      fun other hle hlt hmem => hother other hle hlt fun heq => hmem (heq ▸ hclone)⟩,
    hkeeps₄.respects hheap₃⟩
  · exact hvalue' after _ (hholds.mono le_rfl hkept) hfull
  · exact hframe₁.elementsLength.trans hlast.elementsLength
  · exact (hframe₁.nodesLength.trans (List.length_modify _ _ _).ge).trans hlast.nodesLength

/-! ## All elements -/

/-- The name of what becomes of an element. -/
def Result.key : Result → Text
  | child name _ => name
  | leaf name _ => name

theorem childrenNamed_eq_nil {attr : Text} (hattr : attr ∉ results.map Result.key) :
    childrenNamed attr results = [] := by
  refine List.filterMap_eq_nil_iff.mpr fun result hresult => ?_
  cases result with
  | leaf => rfl
  | child other parsed =>
      refine if_neg ?_
      rintro rfl
      exact hattr (List.mem_map_of_mem hresult)

theorem notMem_leavesOf {attr : Text} (hattr : attr ∉ results.map Result.key) :
    attr ∉ (leavesOf results).map Prod.fst := by
  intro hin
  obtain ⟨leaf, hleaf, rfl⟩ := List.mem_map.mp hin
  obtain ⟨result, hresult, hsome⟩ := List.mem_filterMap.mp hleaf
  cases result with
  | child => cases hsome
  | leaf other value =>
      cases hsome
      exact hattr (List.mem_map_of_mem hresult)

theorem resultsOf_element (declared : ℕ → Declared) (cls : Class) (space : Option Text)
    (tag : Text) (inner : List Node) :
    resultsOf declared cls space (.element tag inner) =
      match cls.scope.get? (stripNamespace space tag) with
      | none => [.leaf (stripNamespace space tag) (contentOf inner)]
      | some ref =>
          if (declared ref).kind = .simpleList then
            [.child (stripNamespace space tag) (.text (contentOf inner))]
          else
            [.child (stripNamespace space tag) (assemble declared (declared ref).hint
              (resultsFrom declared (declared ref).hint
                ((declared ref).hint.namespace?.or space) inner))] := by
  rw [resultsOf]

theorem resultsFrom_append (declared : ℕ → Declared) (cls : Class) (space : Option Text)
    (nodes nodes' : List Node) : resultsFrom declared cls space (nodes ++ nodes') =
      resultsFrom declared cls space nodes ++ resultsFrom declared cls space nodes' := by
  induction nodes with
  | nil =>
      rw [resultsFrom]
      rfl
  | cons node nodes ih => rw [List.cons_append, resultsFrom, resultsFrom, ih, List.append_assoc]

theorem keys_resultsOf (declared : ℕ → Declared) (cls : Class) (space : Option Text)
    (tag : Text) (inner : List Node) :
    (resultsOf declared cls space (.element tag inner)).map Result.key =
      [stripNamespace space tag] := by
  rw [resultsOf_element]
  cases cls.scope.get? (stripNamespace space tag) with
  | none => rfl
  | some ref =>
      dsimp only
      split
      · rfl
      · rfl

theorem keys_resultsFrom (declared : ℕ → Declared) (cls : Class) (space : Option Text)
    (nodes : List Node) : (resultsFrom declared cls space nodes).map Result.key =
      (elementNames nodes).map (stripNamespace space) := by
  induction nodes with
  | nil =>
      rw [resultsFrom]
      rfl
  | cons node nodes ih =>
      rw [resultsFrom, List.map_append, ih]
      cases node with
      | text content =>
          rw [resultsOf]
          rfl
      | element tag inner =>
          rw [keys_resultsOf]
          rfl

/-- What was read for a declared attribute that is no `SimpleList` is an object of its class. -/
theorem exists_of_mem_childrenNamed {declared : ℕ → Declared} {nodes : List Node} {attr : Text}
    {ref : ℕ} (hscope : cls.scope.get? attr = some ref)
    (hkind : (declared ref).kind ≠ .simpleList) {parsed : Parsed}
    (hparsed : parsed ∈ childrenNamed attr (resultsFrom declared cls space nodes)) :
    ∃ results, parsed = assemble declared (declared ref).hint results := by
  induction nodes with
  | nil =>
      rw [resultsFrom] at hparsed
      cases hparsed
  | cons node nodes ih =>
      rw [resultsFrom, childrenNamed_append, List.mem_append] at hparsed
      refine hparsed.elim (fun hparsed => ?_) ih
      cases node with
      | text content =>
          rw [resultsOf] at hparsed
          cases hparsed
      | element tag inner =>
          by_cases hattr : stripNamespace space tag = attr
          · rw [resultsOf_element, hattr, hscope] at hparsed
            dsimp only at hparsed
            rw [if_neg hkind, childrenNamed_self] at hparsed
            exact ⟨_, List.mem_singleton.mp hparsed⟩
          · rw [childrenNamed_eq_nil] at hparsed
            · cases hparsed
            · rw [keys_resultsOf]
              exact fun hin => hattr (List.mem_singleton.mp hin).symm

theorem hasMember_assemble {ref : ℕ} (href : ref < schema.size)
    (hkind : (schema.declared ref).kind = .memberList) (results : List Result) :
    HasMember (assemble schema.declared (schema.declared ref).hint results) := by
  obtain ⟨list, hscope, _⟩ := schema.member ref href hkind
  have hmem := OrderedDict.get?_eq_some_iff.mp hscope
  rw [assemble]
  cases hlookup : List.lookup "member".toList
      (((schema.declared ref).hint.scope.items.map fun entry =>
        (entry.1, held (schema.declared entry.2).kind (childrenNamed entry.1 results))) ++
          (leavesOf results).map fun leaf => (leaf.1, Parsed.text leaf.2)) with
  | some found => exact ⟨_, found, rfl, hlookup⟩
  | none =>
      have hnone := List.lookup_eq_none_iff.mp hlookup _
        (List.mem_append_left _ (List.mem_map_of_mem hmem))
      dsimp only at hnone
      rw [bne_self_eq_false] at hnone
      cases hnone

/-- What was read for a `MemberList` has members. -/
theorem hasMember_childrenNamed (hcls : ∀ entry ∈ cls.scope.items, entry.2 < schema.size)
    (space : Option Text) (nodes : List Node) {entry : Text × ℕ} (hentry : entry ∈ cls.scope.items)
    (hkind : (schema.declared entry.2).kind = .memberList) {parsed : Parsed}
    (hparsed : parsed ∈
      childrenNamed entry.1 (resultsFrom schema.declared cls space nodes)) : HasMember parsed := by
  have hscope := OrderedDict.get?_eq_some_iff.mpr hentry
  have hne : (schema.declared entry.2).kind ≠ .simpleList := by
    rw [hkind]
    exact nofun
  obtain ⟨results, rfl⟩ := exists_of_mem_childrenNamed hscope hne hparsed
  exact hasMember_assemble (hcls entry hentry) hkind results

theorem Conforms.name_ne {declared : ℕ → Declared} {children : List Node}
    (hconforms : Conforms declared cls name space children) {tag : Text} {inner : List Node}
    (hmem : Node.element tag inner ∈ children) : stripNamespace space tag ≠ name := by
  cases hconforms with
  | object _ _ _ _ hname => exact (hname tag inner hmem).1

/-- The content of an element that conforms is read as what it says. -/
theorem readsContent_of_conforms {children : List Node}
    (hconforms : Conforms schema.declared cls name space children)
    (hcls : ∀ entry ∈ cls.scope.items, entry.2 < schema.size) {tag : Text}
    (htag : ∀ other inner, .element other inner ∈ children → tag ≠ other) :
    ReadsContent schema cls name space tag children := by
  induction hconforms generalizing tag with
  | object cls name space children hname hleaf honce hclose hinner ih =>
      intro heap top clones hheap hopen
      have hall : ∀ before nodes heap, children = before ++ nodes → Respects schema heap →
          IsOpen schema heap top cls name space clones
            (resultsFrom schema.declared cls space before) →
          ∃ after, Reads methods tag top nodes heap after ∧
            IsOpen schema after top cls name space clones
              (resultsFrom schema.declared cls space children) ∧
            Frame schema heap top clones after ∧ Respects schema after := by
        intro before nodes
        induction nodes generalizing before with
        | nil =>
            intro heap hsplit hheap hopen
            rw [List.append_nil] at hsplit
            subst hsplit
            exact ⟨heap, Reads.nil _ _ _ _, hopen, Frame.refl _ _ _, hheap⟩
        | cons node nodes ihNodes =>
            intro heap hsplit hheap hopen
            have hone : ∃ between, Reads methods tag top [node] heap between ∧
                IsOpen schema between top cls name space clones
                  (resultsFrom schema.declared cls space (before ++ [node])) ∧
                Frame schema heap top clones between ∧ Respects schema between := by
              have hresults : resultsFrom schema.declared cls space (before ++ [node]) =
                  resultsFrom schema.declared cls space before ++
                    resultsOf schema.declared cls space node := by
                rw [resultsFrom_append, resultsFrom, resultsFrom, List.append_nil]
              rw [hresults]
              cases node with
              | text content =>
                  rw [resultsOf, List.append_nil]
                  exact ⟨heap, reads_text _ _ _ _, hopen, Frame.refl _ _ _, hheap⟩
              | element other inner =>
                  have hmem : Node.element other inner ∈ children := by
                    rw [hsplit]
                    exact List.mem_append_right _ List.mem_cons_self
                  obtain ⟨hne, hown, htwice⟩ := hname other inner hmem
                  have hbefore : stripNamespace space other ∈
                      (resultsFrom schema.declared cls space before).map Result.key →
                      ∃ ref, cls.scope.get? (stripNamespace space other) = some ref ∧
                        ((schema.declared ref).kind = .elementList ∨
                          (schema.declared ref).kind = .simpleList) := by
                    intro hin
                    rw [keys_resultsFrom] at hin
                    have hpairs := honce
                    rw [hsplit, elementNames, List.filterMap_append, List.map_append,
                      List.pairwise_append] at hpairs
                    exact hpairs.2.2 _ hin _ List.mem_cons_self rfl
                  rw [resultsOf_element]
                  cases hscope : cls.scope.get? (stripNamespace space other) with
                  | none =>
                      have hnew : stripNamespace space other ∉
                          (resultsFrom schema.declared cls space before).map Result.key := by
                        intro hin
                        obtain ⟨ref, hsome, _⟩ := hbefore hin
                        rw [hscope] at hsome
                        cases hsome
                      have hplain := hleaf other inner hmem fun ref hsome => by
                        rw [hscope] at hsome
                        cases hsome
                      exact reads_leaf hheap hopen (htag other inner hmem) hne hown htwice hplain
                        hscope (notMem_leavesOf hnew)
                  | some ref =>
                      dsimp only
                      by_cases hkind : (schema.declared ref).kind = .simpleList
                      · rw [if_pos hkind]
                        have hplain := hleaf other inner hmem fun ref' hsome => by
                          rw [hscope] at hsome
                          cases hsome
                          exact hkind
                        exact reads_simple hheap hopen (htag other inner hmem) hne htwice hplain
                          hscope hkind
                      · rw [if_neg hkind]
                        have href := hcls _ (OrderedDict.get?_eq_some_iff.mp hscope)
                        have hclosed := hclose other inner ref hmem hscope hkind
                        have hnone : (schema.declared ref).kind ≠ .elementList →
                            childrenNamed (stripNamespace space other)
                              (resultsFrom schema.declared cls space before) = [] := by
                          intro hlist
                          refine childrenNamed_eq_nil fun hin => ?_
                          obtain ⟨ref', hsome, hkinds⟩ := hbefore hin
                          rw [hscope] at hsome
                          cases hsome
                          exact hkinds.elim hlist hkind
                        refine reads_child hheap hopen hne htwice href hscope hkind hnone hclosed
                          (ih other inner ref hmem hscope hkind (schema.closed ref href) ?_) ?_
                        · rintro tag' inner' hmem' rfl
                          have hconforms := hinner other inner ref hmem hscope hkind
                          exact hconforms.name_ne hmem' hclosed
                        · exact fun entry hentry hmember parsed hparsed =>
                            hasMember_childrenNamed (schema.closed ref href) _ _ hentry hmember
                              hparsed
            obtain ⟨between, hread, hopen', hframe, hheap'⟩ := hone
            have hsplit' : children = (before ++ [node]) ++ nodes := by
              rw [hsplit, List.append_assoc]
              rfl
            obtain ⟨after, hread', hopen'', hframe', hheap''⟩ :=
              ihNodes (before ++ [node]) between hsplit' hheap' hopen'
            exact ⟨after, hread.cons hread', hopen'', hframe.trans hframe', hheap''⟩
      refine hall [] children heap rfl hheap ?_
      rw [resultsFrom]
      exact hopen

end

/-! ## Runs -/

namespace Keeps

theorem endOf (ref : ℕ) (value : Text) (heap : Heap) : Keeps heap (MWS.endOf ref value heap) := by
  rw [MWS.endOf]
  split
  · exact setValue _ _ _
  · exact refl heap

theorem finish {node : DeclarativeType} {heap after : Heap} {value : Value}
    (hfinish : MWS.finish node heap = .ok (value, after)) : Keeps heap after := by
  rw [MWS.finish] at hfinish
  split at hfinish
  · split at hfinish
    · cases hfinish
      exact refl heap
    · split at hfinish
      · cases hfinish
        exact setattr _ _ _ _
      · cases hfinish
        exact refl heap
      · cases hfinish
    · cases hfinish
  · cases hfinish
    exact refl heap

theorem teardown {heap after : Heap} {declared : Text × ℕ}
    (hteardown : MWS.teardown heap declared = .ok after) : Keeps heap after := by
  rw [MWS.teardown] at hteardown
  cases hnode : heap.nodes[declared.2]? with
  | none =>
      rw [hnode] at hteardown
      cases hteardown
      exact refl heap
  | some node =>
      rw [hnode] at hteardown
      dsimp only at hteardown
      cases hfinish : MWS.finish node heap with
      | error e =>
          rw [hfinish] at hteardown
          cases hteardown
      | ok found =>
          obtain ⟨value, between⟩ := found
          rw [hfinish] at hteardown
          change (match node.parent, node.name with
            | some parent, some name => (Except.ok ((between.setValue declared.2 value).setattr
                parent name (.value value)) : Except PyError Heap)
            | _, _ => .error (.attributeError "_parent")) = .ok after at hteardown
          split at hteardown
          · cases hteardown
            exact ((finish hfinish).trans (setValue _ _ _)).trans (setattr _ _ _ _)
          · cases hteardown

theorem foldlM_teardown {declared : List (Text × ℕ)} {heap after : Heap}
    (hrun : declared.foldlM MWS.teardown heap = .ok after) : Keeps heap after := by
  induction declared generalizing heap with
  | nil =>
      cases hrun
      exact refl _
  | cons entry declared ih =>
      rw [List.foldlM_cons] at hrun
      cases hteardown : MWS.teardown heap entry with
      | error e =>
          rw [hteardown] at hrun
          cases hrun
      | ok between =>
          rw [hteardown] at hrun
          exact (teardown hteardown).trans (ih hrun)

theorem startElement (ref : ℕ) (name : Text) (heap : Heap) :
    Keeps heap (methods.startElement ref name heap).2 := by
  change Keeps heap (match heap.elements[ref]? with
    | none => (none, heap)
    | some self =>
        if self.cls.isResponse = true then
          let name := stripNamespace self.space name
          if name = self.name then (none, heap) else MWS.elementStart self name heap
        else MWS.elementStart self name heap).2
  split
  · exact refl heap
  · split
    · dsimp only
      split
      · exact refl heap
      · exact elementStart _ _ _
    · exact elementStart _ _ _

theorem endElement {ref : ℕ} {name value : Text} {heap after : Heap}
    (hend : methods.endElement ref name value heap = .ok after) : Keeps heap after := by
  change (match heap.elements[ref]? with
    | none => (Except.ok heap : Except PyError Heap)
    | some element =>
        let name := stripNamespace element.space name
        if name = element.name then element.declared.foldlM MWS.teardown heap
        else
          match element.getattr name with
          | some (.node node) => .ok (MWS.endOf node value heap)
          | _ =>
              if isProperty element.cls name = true then
                .error (.attributeError "can't set attribute")
              else .ok (heap.setattr ref name (.value (.text value)))) = .ok after at hend
  split at hend
  · cases hend
    exact refl heap
  · dsimp only at hend
    split at hend
    · exact foldlM_teardown hend
    · split at hend
      · cases hend
        exact endOf _ _ _
      · split at hend
        · cases hend
        · cases hend
          exact setattr _ _ _ _

/-- One event keeps the declarations. -/
theorem step {handler handler' : XmlHandler ℕ Heap} {event : Event}
    (hstep : XmlHandler.step methods handler event = .ok handler') :
    Keeps handler.objects handler'.objects := by
  obtain ⟨nodes, text, heap⟩ := handler
  cases event with
  | characters c =>
      cases hstep
      exact refl heap
  | startElement name =>
      cases nodes with
      | nil => cases hstep
      | cons top rest =>
          have hkeeps := startElement top.2 name heap
          rw [XmlHandler.step, XmlHandler.startElement] at hstep
          dsimp only at hstep
          split at hstep
          · rename_i objects hstart
            cases hstep
            rwa [hstart] at hkeeps
          · rename_i new objects hstart
            cases hstep
            rwa [hstart] at hkeeps
  | endElement name =>
      cases nodes with
      | nil => cases hstep
      | cons top rest =>
          rw [XmlHandler.step, XmlHandler.endElement] at hstep
          dsimp only at hstep
          cases hend : methods.endElement top.2 name text heap with
          | error e =>
              rw [hend] at hstep
              cases hstep
          | ok after =>
              rw [hend] at hstep
              cases hstep
              exact endElement hend

/-- All events keep the declarations. -/
theorem run {handler handler' : XmlHandler ℕ Heap} {events : List Event}
    (hrun : XmlHandler.run methods handler events = .ok handler') :
    Keeps handler.objects handler'.objects := by
  induction events generalizing handler with
  | nil =>
      cases hrun
      exact refl _
  | cons event events ih =>
      rw [XmlHandler.run_cons] at hrun
      cases hstep : XmlHandler.step methods handler event with
      | error e =>
          rw [hstep] at hrun
          cases hrun
      | ok between =>
          rw [hstep] at hrun
          exact (step hstep).trans (ih hrun)

end Keeps

/-- Whatever was read, the declarations of the classes are what they were. -/
theorem Reached.respects {schema : Schema} {heap : Heap} (hheap : Reached schema heap) :
    Respects schema heap := by
  induction hheap with
  | initial =>
      intro ref href
      refine ⟨.init (schema.declared ref).kind (schema.declared ref).hint, ?_, rfl, rfl⟩
      rw [Schema.heap, List.getElem?_map, List.getElem?_range href]
      rfl
  | read _ hrun ih => exact ((Keeps.init _ _ _ _).trans (Keeps.run hrun)).respects ih

/-- A response with its class: the class derives from `Response` and is one of the schema, and the
content conforms to it. -/
structure Document (schema : Schema) where
  cls : Class
  tag : Text
  children : List Node
  response : cls.isResponse = true
  known : ∀ entry ∈ cls.scope.items, entry.2 < schema.size
  conforms : Conforms schema.declared cls cls.name cls.namespace? children
  named : stripNamespace cls.namespace? tag = cls.name
  root : "root".toList ≠ tag ∧ ∀ other inner, .element other inner ∈ children →
    "root".toList ≠ other

/-- Every response that conforms is read as what it says, whatever was read before. -/
theorem isFaithful (schema : Schema) (document : Document schema) :
    IsFaithful schema document.cls document.tag document.children := by
  intro heap hheap
  have hrespects := hheap.respects
  have hnone : ((none : Option ℕ).bind fun parent => heap.elements[parent]?).bind
      ResponseElement.space = none := rfl
  obtain ⟨clones, hopen, _, _, _⟩ := exists_init hrespects document.known none hnone
  rw [Option.or_none, Option.getD_none] at hopen
  have hinit := (Keeps.init document.cls none none heap).respects hrespects
  obtain ⟨read, hread, hopen', _, _⟩ :=
    readsContent_of_conforms document.conforms document.known document.root.2 _ _ _ hinit hopen
  obtain ⟨after, hend, hholds, _, _⟩ := exists_close hopen' document.named
    fun entry hentry hkind parsed hparsed =>
      hasMember_childrenNamed document.known _ _ hentry hkind hparsed
  have hstart : methods.startElement heap.elements.length document.tag
      (init document.cls none none heap).2 = (none, (init document.cls none none heap).2) := by
    obtain ⟨attributes, hget, _⟩ := hopen.element
    change (match (init document.cls none none heap).2.elements[heap.elements.length]? with
      | none => (none, (init document.cls none none heap).2)
      | some self =>
          if self.cls.isResponse = true then
            let name := stripNamespace self.space document.tag
            if name = self.name then (none, (init document.cls none none heap).2)
            else elementStart self name (init document.cls none none heap).2
          else elementStart self document.tag (init document.cls none none heap).2) = _
    rw [hget]
    dsimp only
    rw [if_pos document.response, if_pos document.named]
  have hparse := Reads.parse (Reads.skipped document.root.1 hstart hread hend)
  refine ⟨heap.elements.length, after, ?_, fun parsed => ?_⟩
  · rw [parse]
    exact congrArg (Except.map fun heap' => (heap.elements.length, heap')) hparse
  · have hroot := hholds.mono (Nat.zero_le _) fun _ _ _ h => h
    constructor
    · intro hparsed
      exact hparsed.unique hroot
    · rintro rfl
      exact hroot

/-! ## Responses that are not read as what they say -/

/-- `Price = Element(Note=SimpleList())` in a response with the namespace `a`; the class of the
element has the given namespace of its own. -/
def priceSchema (space : Option Text) : Schema where
  size := 3
  declared
    | 0 => ⟨.element, .derived "JIT".toList .responseElement none []⟩
    | 1 => ⟨.element, .derived "Price".toList .responseElement space [("Note".toList, 2)]⟩
    | _ => ⟨.simpleList, .derived "JIT".toList .responseElement none []⟩
  closed := by
    intro ref href
    match ref, href with
    | 0, _ => exact nofun
    | 1, _ => exact (by decide : ∀ pair ∈ [("Note".toList, 2)], pair.2 < 3)
    | 2, _ => exact nofun
  member := by
    intro ref href hkind
    match ref, href with
    | 0, _ => cases hkind
    | 1, _ => cases hkind
    | 2, _ => cases hkind

/-- The class of the response. -/
def priceResponse : Class :=
  .derived "PriceResponse".toList (.response 0) (some "a".toList) [("Price".toList, 1)]

/-- The names of the attributes of what is read for `Price`. -/
def priceKeys (result : Except PyError (ℕ × Heap)) : Option (List Text) :=
  result.toOption.bind fun read => (read.2.elements[read.1]?).bind fun response : ResponseElement =>
    match response.attributes.get? "Price".toList with
    | some (.value (.object price)) =>
        (read.2.elements[price]?).map fun element : ResponseElement => element.attributes.keys
    | _ => none

theorem priceKeys_of_isFaithful {schema : Schema} {cls : Class} {tag : Text}
    {children : List Node} (hfaithful : IsFaithful schema cls tag children)
    {entries inner : List (Text × Parsed)}
    (hentries : assemble schema.declared cls
      (resultsFrom schema.declared cls cls.namespace? children) = .object entries)
    (hprice : ("Price".toList, .object inner) ∈ entries) :
    priceKeys (parse cls schema.heap (Node.element tag children).events) =
      some (inner.map Prod.fst) := by
  obtain ⟨ref, after, hparse, hiff⟩ := hfaithful _ .initial
  have hholds := (hiff _).mpr rfl
  rw [hentries] at hholds
  obtain ⟨response, hresponse, _, hattributes⟩ := exists_attributes hholds
  obtain ⟨value, hattr, hvalue⟩ := hattributes _ _ hprice
  cases value with
  | none => cases hvalue
  | text value => cases hvalue
  | list items => cases hvalue
  | object price =>
      obtain ⟨element, helement, hkeys, _⟩ := exists_attributes hvalue
      rw [hparse, priceKeys]
      change (after.elements[ref]?).bind _ = _
      rw [hresponse]
      change (match response.attributes.get? "Price".toList with
        | some (.value (.object price)) =>
            (after.elements[price]?).map fun element : ResponseElement => element.attributes.keys
        | _ => none) = _
      rw [hattr]
      change (after.elements[price]?).map _ = _
      rw [helement, ← hkeys]
      rfl

theorem not_isFaithful_of_error {schema : Schema} {cls : Class} {tag : Text}
    {children : List Node} (herror :
      (parse cls schema.heap (Node.element tag children).events).toOption.isNone = true) :
    ¬IsFaithful schema cls tag children := by
  intro hfaithful
  obtain ⟨ref, after, hparse, _⟩ := hfaithful _ .initial
  rw [hparse] at herror
  cases herror

/-- A leaf that is called like the element it is in ends that element; a namespace of an element's
own leaves a tag with the one around it open; and leaves that are called `root` or `connection`
are errors. -/
theorem price_not_isFaithful :
    ¬IsFaithful (priceSchema none) priceResponse "PriceResponse".toList
        [.element "Price".toList [.leaf "Price".toList "5".toList]] ∧
      ¬IsFaithful (priceSchema (some "b".toList)) priceResponse "PriceResponse".toList
        [.element "a:Price".toList [.leaf "b:Note".toList "5".toList]] ∧
      ¬IsFaithful (priceSchema none) priceResponse "PriceResponse".toList
        [.leaf "root".toList "5".toList] ∧
      ¬IsFaithful (priceSchema none) priceResponse "PriceResponse".toList
        [.leaf "connection".toList "5".toList] := by
  refine ⟨fun hfaithful => ?_, fun hfaithful => ?_, ?_, ?_⟩
  · have hkeys := priceKeys_of_isFaithful hfaithful rfl (List.mem_cons_of_mem _ List.mem_cons_self)
    exact absurd hkeys (by decide)
  · have hkeys := priceKeys_of_isFaithful hfaithful rfl (List.mem_cons_of_mem _ List.mem_cons_self)
    exact absurd hkeys (by decide)
  · exact not_isFaithful_of_error (by decide)
  · exact not_isFaithful_of_error (by decide)

end Boto.MWS
