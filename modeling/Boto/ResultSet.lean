import Boto.Handler
import Boto.Numerals

/-!
# Result sets

`ResultSet` of `boto/resultset.py` with the objects that the listings of a bucket put
into it: keys, common prefixes, delete markers and multipart uploads.  Of these, and
of the result set, the attributes are kept that the iteration over a bucket reads.
-/

namespace Boto

/-- The classes of the objects of a listing. -/
inductive ListedClass
  | key
  | commonPrefix
  | deleteMarker
  | multiPartUpload
  deriving DecidableEq, Repr

/-- An object of a listing: its name, and its version id or upload id. -/
structure Listed where
  cls : ListedClass
  name : Option Text
  id : Option Text
  deriving DecidableEq, Repr

/-- `ResultSet`. -/
structure ResultSet where
  markers : List (Text × ListedClass)
  items : List Listed
  nextMarker : Option Text
  nextKeyMarker : Option Text
  nextVersionIdMarker : Option Text
  nextUploadIdMarker : Option Text
  isTruncated : Bool

/-- The objects that are referred to while a result set is read: the result set, the
item that was added last, and the user who owns it. -/
inductive ResultSetRef
  | resultSet
  | item
  | user
  deriving DecidableEq

namespace Listed

/-- `endElement` of the class of the object. -/
def endElement (name value : Text) (self : Listed) : Except PyError Listed :=
  match self.cls with
  | .key =>
      if name = "Key".toList then .ok { self with name := some value }
      else if name = "Size".toList then (parseInt value).map fun _ => self
      else if name = "VersionId".toList then .ok { self with id := some value }
      else .ok self
  | .commonPrefix =>
      if name = "Prefix".toList then .ok { self with name := some value }
      else .ok self
  | .deleteMarker =>
      if name = "Key".toList then .ok { self with name := some value }
      else if name = "VersionId".toList then .ok { self with id := some value }
      else .ok self
  | .multiPartUpload =>
      if name = "Key".toList then .ok { self with name := some value }
      else if name = "UploadId".toList then .ok { self with id := some value }
      else .ok self

/-- Whether `startElement` gives a user for the element. -/
def hasUser (name : Text) (self : Listed) : Bool :=
  match self.cls with
  | .commonPrefix => false
  | .multiPartUpload => name = "Owner".toList || name = "Initiator".toList
  | _ => name = "Owner".toList

end Listed

namespace ResultSet

/-- `ResultSet(markers)`. -/
def init (markers : List (Text × ListedClass)) : ResultSet where
  markers := markers
  items := []
  nextMarker := none
  nextKeyMarker := none
  nextVersionIdMarker := none
  nextUploadIdMarker := none
  isTruncated := false

/-- `to_boolean`. -/
def toBoolean (value : Text) : Bool :=
  value = "true".toList

/-- `endElement`. -/
def endElement (name value : Text) (self : ResultSet) : Except PyError ResultSet :=
  if name = "IsTruncated".toList then .ok { self with isTruncated := toBoolean value }
  else if name = "NextMarker".toList then .ok { self with nextMarker := some value }
  else if name = "NextKeyMarker".toList then
    .ok { self with nextKeyMarker := some value }
  else if name = "NextVersionIdMarker".toList then
    .ok { self with nextVersionIdMarker := some value }
  else if name = "NextUploadIdMarker".toList then
    .ok { self with nextUploadIdMarker := some value }
  else if name = "MaxUploads".toList ∨ name = "MaxItems".toList then
    (parseInt value).map fun _ => self
  else .ok self

/-- Change the item that was added last. -/
def modifyLast (f : Listed → Except PyError Listed) (self : ResultSet) :
    Except PyError ResultSet :=
  match self.items.getLast? with
  | none => .ok self
  | some item => (f item).map fun item =>
      { self with items := self.items.dropLast ++ [item] }

/-- The methods of a result set, its items and their users. -/
def methods : Nodes ResultSetRef ResultSet where
  startElement
    | .resultSet, name, self =>
        match self.markers.lookup name with
        | some cls =>
            (some .item,
              { self with
                items := self.items ++ [{ cls := cls, name := none, id := none }] })
        | none =>
            if name = "Owner".toList then (some .user, self) else (none, self)
    | .item, name, self =>
        match self.items.getLast? with
        | some item => (if item.hasUser name then some .user else none, self)
        | none => (none, self)
    | .user, _, self => (none, self)
  endElement
    | .resultSet, name, value, self => self.endElement name value
    | .item, name, value, self => self.modifyLast (·.endElement name value)
    | .user, _, _, self => .ok self

/-! ## Reading items -/

variable {markers : List (Text × ListedClass)}

theorem modifyLast_append {self : ResultSet} {items : List Listed}
    {item item' : Listed} {f : Listed → Except PyError Listed}
    (hitems : self.items = items ++ [item]) (hf : f item = .ok item') :
    self.modifyLast f = .ok { self with items := items ++ [item'] } := by
  rw [modifyLast, hitems]
  simp [hf, Except.map]

/-- What leaves do to the last item. -/
theorem reads_leaves {tag : Text} {self : ResultSet} {items : List Listed}
    (fields : List (Text × Text)) {item item' : Listed}
    (hitems : self.items = items ++ [item])
    (hleaf : ∀ field ∈ fields, tag ≠ field.1 ∧
      ∀ item : Listed, item.hasUser field.1 = false)
    (hfields : fields.foldlM (fun item field =>
      Listed.endElement field.1 field.2 item) item = .ok item') :
    Reads methods tag .item (fields.map fun field => .leaf field.1 field.2) self
      { self with items := items ++ [item'] } := by
  induction fields generalizing self item with
  | nil =>
      cases hfields
      rw [List.map_nil, ← hitems]
      exact Reads.nil _ _ _ _
  | cons field fields ih =>
      obtain ⟨⟨hne, huser⟩, hrest⟩ := List.forall_mem_cons.mp hleaf
      rw [List.foldlM_cons] at hfields
      cases hend : Listed.endElement field.1 field.2 item with
      | error e => simp [hend, bind, Except.bind] at hfields
      | ok item'' =>
          rw [hend] at hfields
          have hstart : methods.startElement .item field.1 self = (none, self) := by
            simp [methods, hitems, huser item]
          exact (Reads.leaf hne hstart (modifyLast_append hitems hend)).append
            (ih rfl hrest hfields)

/-- An item with the values of its fields. -/
theorem reads_item {tag name : Text} {self : ResultSet} {cls : ListedClass}
    {fields : List (Text × Text)} {item : Listed}
    (hmarker : self.markers.lookup name = some cls)
    (hleaf : ∀ field ∈ fields, name ≠ field.1 ∧
      ∀ item : Listed, item.hasUser field.1 = false)
    (hfields : fields.foldlM (fun item field =>
      Listed.endElement field.1 field.2 item)
        { cls := cls, name := none, id := none } = .ok item)
    (hend : Listed.endElement name = fun _ item => .ok item) :
    Reads methods tag .resultSet
      [.element name (fields.map fun field => .leaf field.1 field.2)] self
      { self with items := self.items ++ [item] } := by
  have hstart : methods.startElement .resultSet name self =
      (some .item, { self with
        items := self.items ++ [{ cls := cls, name := none, id := none }] }) := by
    simp [methods, hmarker]
  refine Reads.element hstart (reads_leaves fields rfl hleaf hfields) ?_
  intro text
  exact modifyLast_append rfl (by rw [hend])

end ResultSet

end Boto
