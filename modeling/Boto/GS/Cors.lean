import Boto.HandlerTrees
import Boto.HandlerWeight
import Boto.Numerals
import Boto.TextMethods

/-!
# The configuration of cross-origin requests

`Cors` of `boto/gs/cors.py` keeps the level of the element that is being read, the collection
and the element in it, and raises `InvalidCorsError` for what it does not expect.  It accepts
exactly the documents of its grammar, and keeps all that is in them.
-/

namespace Boto.GS

open Xml (Child Node Readers children data readChild readChildren)

/-- `InvalidCorsError`. -/
structure InvalidCorsError where
  message : Text
  deriving DecidableEq

/-- What is kept for a collection: its text, or the names and texts of its elements. -/
inductive ElementsOrValue
  | value (text : Text)
  | elements (elements : List (Text × Text))
  deriving DecidableEq

/-- `Cors`. -/
structure Cors where
  cors : List (List (Text × ElementsOrValue))
  collections : List (Text × ElementsOrValue)
  elements : List (Text × Text)
  parseLevel : ℕ
  collection : Option Text
  element : Option Text
  deriving DecidableEq

namespace Cors

/-- `Cors()`. -/
def init : Cors := ⟨[], [], [], 0, none, none⟩

/-- `CORS_CONFIG`. -/
def corsConfigTag : Text := "CorsConfig".toList

/-- `CORS`. -/
def corsTag : Text := "Cors".toList

/-- `legal_collections`. -/
def legalCollections : List (Text × List Text) :=
  [("Origins".toList, ["Origin".toList]), ("Methods".toList, ["Method".toList]),
    ("ResponseHeaders".toList, ["ResponseHeader".toList]), ("MaxAgeSec".toList, [])]

/-- `name in self.legal_collections`. -/
def IsCollectionName (name : Text) : Prop := name ∈ legalCollections.map Prod.fst

instance : DecidablePred IsCollectionName := fun name =>
  inferInstanceAs (Decidable (name ∈ legalCollections.map Prod.fst))

/-- `self.legal_collections[name]`. -/
def legalIn (name : Text) : List Text := (legalCollections.lookup name).getD []

/-- `legal_elements`. -/
def legalElements : List Text := ["Origin".toList, "Method".toList, "ResponseHeader".toList]

/-- How `'%s'` writes a name or `None`. -/
def shown (name : Option Text) : Text := name.getD "None".toList

variable (self : Cors)

/-- `validateParseLevel`. -/
def validateParseLevel (tag : Text) (level : ℕ) : Except InvalidCorsError Unit :=
  if self.parseLevel = level then .ok ()
  else .error ⟨"Invalid tag ".toList ++ tag ++ " at parse level ".toList ++
    decimal self.parseLevel ++ ": ".toList⟩

/-- The tests of the start and of the end of an element of a collection. -/
def validateElement (name : Text) : Except InvalidCorsError Unit := do
  self.validateParseLevel name 3
  match self.collection with
  | none => .error ⟨"Tag ".toList ++ name ++ " found outside collection".toList⟩
  | some collection =>
      if name ∈ legalIn collection then .ok ()
      else .error ⟨"Tag ".toList ++ name ++ " not allowed in ".toList ++ collection ++
        " collection".toList⟩

/-- `startElement`. -/
def startElement (name : Text) : Except InvalidCorsError Cors :=
  if name = corsConfigTag then do
    self.validateParseLevel name 0
    return { self with parseLevel := self.parseLevel + 1 }
  else if name = corsTag then do
    self.validateParseLevel name 1
    return { self with parseLevel := self.parseLevel + 1 }
  else if IsCollectionName name then do
    self.validateParseLevel name 2
    return { self with parseLevel := self.parseLevel + 1, collection := some name }
  else if name ∈ legalElements then do
    self.validateElement name
    return { self with element := some name }
  else .error ⟨"Unsupported tag ".toList ++ name⟩

/-- What is kept of a collection. -/
def terminated (name value : Text) : ElementsOrValue :=
  if legalIn name = [] then .value (stripText value) else .elements self.elements

/-- The end of a collection. -/
def endCollection (name value : Text) : Except InvalidCorsError Cors := do
  self.validateParseLevel name 3
  if some name ≠ self.collection then
    .error ⟨"Mismatched start and end tags (".toList ++ shown self.collection ++ "/".toList ++
      name ++ ")".toList⟩
  else
    return { self with
      parseLevel := self.parseLevel - 1
      collections := self.collections ++ [(name, self.terminated name value)]
      elements := []
      collection := none }

/-- The end of an element of a collection. -/
def endOfElement (name value : Text) : Except InvalidCorsError Cors := do
  self.validateElement name
  if some name ≠ self.element then
    .error ⟨"Mismatched start and end tags (".toList ++ shown self.element ++ "/".toList ++
      name ++ ")".toList⟩
  else
    return { self with
      elements := self.elements ++ [(name, stripText value)]
      element := none }

/-- `endElement`. -/
def endElement (name value : Text) : Except InvalidCorsError Cors :=
  if name = corsConfigTag then do
    self.validateParseLevel name 1
    return { self with parseLevel := self.parseLevel - 1 }
  else if name = corsTag then do
    self.validateParseLevel name 2
    return { self with
      parseLevel := self.parseLevel - 1
      cors := self.cors ++ [self.collections]
      collections := [] }
  else if IsCollectionName name then self.endCollection name value
  else if name ∈ legalElements then self.endOfElement name value
  else .error ⟨"Unsupported end tag ".toList ++ name⟩

/-- The methods of a `Cors`, which reads all elements itself. -/
def readers : Readers Unit Cors InvalidCorsError where
  startElement _ name self := (self.startElement name).map fun self => (none, self)
  endElement _ name value self := self.endElement name value

/-- The `Cors` that reads some events. -/
def read (events : List Xml.Event) : Except (ReadError InvalidCorsError) Cors :=
  XmlHandler.checkedParse readers () init events

/-! ## The grammar -/

/-- An element of the collection with a name: one of its kind, without children. -/
def IsItem (collection : Text) (child : Child) : Prop :=
  child.1 ∈ legalIn collection ∧ children child.2 = []

/-- A collection of elements of its kind. -/
def IsCollection (child : Child) : Prop :=
  IsCollectionName child.1 ∧ ∀ item ∈ children child.2, IsItem child.1 item

/-- A `Cors` element. -/
def IsCorsElement (child : Child) : Prop :=
  child.1 = corsTag ∧ ∀ collection ∈ children child.2, IsCollection collection

/-- A document that describes a configuration. -/
def IsCorsConfig (root : Child) : Prop :=
  root.1 = corsConfigTag ∧ ∀ cors ∈ children root.2, IsCorsElement cors

/-- The name and the text of an element. -/
def itemOf (child : Child) : Text × Text := (child.1, stripText (data child.2))

/-- What a collection holds. -/
def collectionOf (child : Child) : Text × ElementsOrValue :=
  (child.1, if legalIn child.1 = [] then .value (stripText (data child.2))
    else .elements ((children child.2).map itemOf))

/-- The collections of a `Cors` element. -/
def collectionsOf (child : Child) : List (Text × ElementsOrValue) :=
  (children child.2).map collectionOf

/-- The configuration that a document describes. -/
def configOf (root : Child) : Cors := { init with cors := (children root.2).map collectionsOf }

/-! ## What a step can do -/

variable {self} {self' : Cors} {name value tag collection : Text} {level : ℕ}

theorem validateParseLevel_eq_ok {u : Unit} :
    self.validateParseLevel tag level = .ok u ↔ self.parseLevel = level := by
  rw [validateParseLevel]
  split
  · rename_i heq
    simp [heq]
  · rename_i hne
    simp [hne]

theorem level_bind_eq_ok {α : Type} {f : Unit → Except InvalidCorsError α} {a : α} :
    (self.validateParseLevel tag level >>= f) = .ok a ↔
      self.parseLevel = level ∧ f () = .ok a := by
  rw [except_bind_eq_ok]
  constructor
  · rintro ⟨_, hlevel, hrest⟩
    exact ⟨validateParseLevel_eq_ok.mp hlevel, hrest⟩
  · rintro ⟨hlevel, hrest⟩
    exact ⟨(), validateParseLevel_eq_ok.mpr hlevel, hrest⟩

theorem validateElement_eq_ok {u : Unit} :
    self.validateElement name = .ok u ↔
      self.parseLevel = 3 ∧ ∃ collection, self.collection = some collection ∧
        name ∈ legalIn collection := by
  rw [validateElement, level_bind_eq_ok]
  refine and_congr_right fun _ => ?_
  constructor
  · intro hrest
    cases hcollection : self.collection with
    | none => simp [hcollection] at hrest
    | some collection =>
        refine ⟨collection, rfl, ?_⟩
        by_contra hillegal
        simp [hcollection, hillegal] at hrest
  · rintro ⟨collection, hcollection, hlegal⟩
    simp [hcollection, hlegal]

/-- What is legal in some collection is a legal element. -/
theorem mem_legalElements (hlegal : name ∈ legalIn collection) : name ∈ legalElements := by
  rw [legalIn] at hlegal
  cases hlookup : legalCollections.lookup collection with
  | none => simp [hlookup] at hlegal
  | some names =>
      obtain ⟨before, after, hlist, -⟩ := List.lookup_eq_some_iff.mp hlookup
      have hall : ∀ entry ∈ legalCollections, ∀ name ∈ entry.2, name ∈ legalElements := by
        decide
      rw [hlookup] at hlegal
      exact hall (collection, names) (by simp [hlist]) name hlegal

theorem not_collection_of_legal (hlegal : name ∈ legalElements) :
    name ≠ corsConfigTag ∧ name ≠ corsTag ∧ ¬IsCollectionName name := by
  have hall : ∀ name ∈ legalElements,
      name ≠ corsConfigTag ∧ name ≠ corsTag ∧ ¬IsCollectionName name := by decide
  exact hall name hlegal

theorem ne_of_isCollectionName (hname : IsCollectionName name) :
    name ≠ corsConfigTag ∧ name ≠ corsTag := by
  have hall : ∀ name ∈ legalCollections.map Prod.fst,
      name ≠ corsConfigTag ∧ name ≠ corsTag := by decide
  exact hall name hname

/-- What the start of an element does, by the level it is at. -/
theorem startElement_eq_ok :
    self.startElement name = .ok self' ↔
      name = corsConfigTag ∧ self.parseLevel = 0 ∧ self' = { self with parseLevel := 1 } ∨
      name = corsTag ∧ self.parseLevel = 1 ∧ self' = { self with parseLevel := 2 } ∨
      IsCollectionName name ∧ self.parseLevel = 2 ∧
        self' = { self with parseLevel := 3, collection := some name } ∨
      self.parseLevel = 3 ∧
        (∃ collection, self.collection = some collection ∧ name ∈ legalIn collection) ∧
        self' = { self with element := some name } := by
  constructor
  · intro hstart
    rw [startElement] at hstart
    split at hstart
    · rename_i hname
      obtain ⟨hlevel, hrest⟩ := level_bind_eq_ok.mp hstart
      rw [hlevel] at hrest
      exact .inl ⟨hname, hlevel, (Except.ok.inj hrest).symm⟩
    split at hstart
    · rename_i hname
      obtain ⟨hlevel, hrest⟩ := level_bind_eq_ok.mp hstart
      rw [hlevel] at hrest
      exact .inr (.inl ⟨hname, hlevel, (Except.ok.inj hrest).symm⟩)
    split at hstart
    · rename_i hname
      obtain ⟨hlevel, hrest⟩ := level_bind_eq_ok.mp hstart
      rw [hlevel] at hrest
      exact .inr (.inr (.inl ⟨hname, hlevel, (Except.ok.inj hrest).symm⟩))
    split at hstart
    · obtain ⟨_, hvalid, hrest⟩ := except_bind_eq_ok.mp hstart
      obtain ⟨hlevel, hcollection⟩ := validateElement_eq_ok.mp hvalid
      exact .inr (.inr (.inr ⟨hlevel, hcollection, (Except.ok.inj hrest).symm⟩))
    · cases hstart
  · rintro (⟨rfl, hlevel, rfl⟩ | ⟨rfl, hlevel, rfl⟩ | ⟨hname, hlevel, rfl⟩ |
      ⟨hlevel, hcollection, rfl⟩)
    · rw [startElement, if_pos rfl, level_bind_eq_ok]
      exact ⟨hlevel, by rw [hlevel]; rfl⟩
    · rw [startElement, if_neg (by decide), if_pos rfl, level_bind_eq_ok]
      exact ⟨hlevel, by rw [hlevel]; rfl⟩
    · obtain ⟨hconfig, hcors⟩ := ne_of_isCollectionName hname
      rw [startElement, if_neg hconfig, if_neg hcors, if_pos hname, level_bind_eq_ok]
      exact ⟨hlevel, by rw [hlevel]; rfl⟩
    · obtain ⟨collection, -, hlegal⟩ := id hcollection
      have hlegal := mem_legalElements hlegal
      obtain ⟨hconfig, hcors, hname⟩ := not_collection_of_legal hlegal
      rw [startElement, if_neg hconfig, if_neg hcors, if_neg hname, if_pos hlegal,
        except_bind_eq_ok]
      exact ⟨(), validateElement_eq_ok.mpr ⟨hlevel, hcollection⟩, rfl⟩

/-- What the end of an element does, by the level it is at. -/
theorem endElement_eq_ok :
    self.endElement name value = .ok self' ↔
      name = corsConfigTag ∧ self.parseLevel = 1 ∧ self' = { self with parseLevel := 0 } ∨
      name = corsTag ∧ self.parseLevel = 2 ∧
        self' = { self with
          parseLevel := 1, cors := self.cors ++ [self.collections], collections := [] } ∨
      IsCollectionName name ∧ self.parseLevel = 3 ∧ self.collection = some name ∧
        self' = { self with
          parseLevel := 2
          collections := self.collections ++ [(name, self.terminated name value)]
          elements := []
          collection := none } ∨
      self.parseLevel = 3 ∧
        (∃ collection, self.collection = some collection ∧ name ∈ legalIn collection) ∧
        self.element = some name ∧
        self' = { self with
          elements := self.elements ++ [(name, stripText value)], element := none } := by
  constructor
  · intro hend
    rw [endElement] at hend
    split at hend
    · rename_i hname
      obtain ⟨hlevel, hrest⟩ := level_bind_eq_ok.mp hend
      rw [hlevel] at hrest
      exact .inl ⟨hname, hlevel, (Except.ok.inj hrest).symm⟩
    split at hend
    · rename_i hname
      obtain ⟨hlevel, hrest⟩ := level_bind_eq_ok.mp hend
      rw [hlevel] at hrest
      exact .inr (.inl ⟨hname, hlevel, (Except.ok.inj hrest).symm⟩)
    split at hend
    · rename_i hname
      rw [endCollection] at hend
      obtain ⟨hlevel, hrest⟩ := level_bind_eq_ok.mp hend
      rw [hlevel] at hrest
      split at hrest
      · cases hrest
      · rename_i hcollection
        rw [not_not] at hcollection
        exact .inr (.inr (.inl
          ⟨hname, hlevel, hcollection.symm, (Except.ok.inj hrest).symm⟩))
    split at hend
    · rw [endOfElement] at hend
      obtain ⟨_, hvalid, hrest⟩ := except_bind_eq_ok.mp hend
      obtain ⟨hlevel, hcollection⟩ := validateElement_eq_ok.mp hvalid
      split at hrest
      · cases hrest
      · rename_i helement
        rw [not_not] at helement
        exact .inr (.inr (.inr
          ⟨hlevel, hcollection, helement.symm, (Except.ok.inj hrest).symm⟩))
    · cases hend
  · rintro (⟨rfl, hlevel, rfl⟩ | ⟨rfl, hlevel, rfl⟩ | ⟨hname, hlevel, hcollection, rfl⟩ |
      ⟨hlevel, hcollection, helement, rfl⟩)
    · rw [endElement, if_pos rfl, level_bind_eq_ok]
      exact ⟨hlevel, by rw [hlevel]; rfl⟩
    · rw [endElement, if_neg (by decide), if_pos rfl, level_bind_eq_ok]
      exact ⟨hlevel, by rw [hlevel]; rfl⟩
    · obtain ⟨hconfig, hcors⟩ := ne_of_isCollectionName hname
      rw [endElement, if_neg hconfig, if_neg hcors, if_pos hname, endCollection,
        level_bind_eq_ok]
      refine ⟨hlevel, ?_⟩
      rw [if_neg (not_not.mpr hcollection.symm), hlevel]
      rfl
    · obtain ⟨collection, -, hlegal⟩ := id hcollection
      have hlegal := mem_legalElements hlegal
      obtain ⟨hconfig, hcors, hname⟩ := not_collection_of_legal hlegal
      rw [endElement, if_neg hconfig, if_neg hcors, if_neg hname, if_pos hlegal, endOfElement,
        except_bind_eq_ok]
      refine ⟨(), validateElement_eq_ok.mpr ⟨hlevel, hcollection⟩, ?_⟩
      rw [if_neg (not_not.mpr helement.symm)]
      rfl

/-! ## Reading an element -/

variable {child : Child} {rest : List Child}

theorem readChild_eq_ok :
    readChild readers () child self = .ok self' ↔
      ∃ started text read, self.startElement child.1 = .ok started ∧
        Xml.readNodes readers () child.2 [] started = .ok (text, read) ∧
        read.endElement child.1 text = .ok self' := by
  rw [Xml.readChild_eq_ok]
  constructor
  · rintro ⟨new, started, text, read, hstart, hread, hend⟩
    obtain ⟨started', hstarted, heq⟩ := exists_of_map_eq_ok hstart
    obtain ⟨rfl, rfl⟩ := Prod.mk.inj heq
    exact ⟨started', text, read, hstarted, hread, hend⟩
  · rintro ⟨started, text, read, hstart, hread, hend⟩
    refine ⟨none, started, text, read, ?_, hread, hend⟩
    change (self.startElement child.1).map _ = _
    rw [hstart]
    rfl

/-- After an element of a collection there is no element that is being read. -/
theorem element_of_readChild (hlevel : self.parseLevel = 3)
    (hread : readChild readers () child self = .ok self') :
    self'.parseLevel = 3 ∧ self'.element = none := by
  obtain ⟨started, text, read, hstart, -, hend⟩ := readChild_eq_ok.mp hread
  have hname : child.1 ∈ legalElements := by
    rcases startElement_eq_ok.mp hstart with ⟨-, h, -⟩ | ⟨-, h, -⟩ | ⟨-, h, -⟩ |
      ⟨-, ⟨collection, -, hlegal⟩, -⟩
    · omega
    · omega
    · omega
    · exact mem_legalElements hlegal
  obtain ⟨hconfig, hcors, hcollection⟩ := not_collection_of_legal hname
  rcases endElement_eq_ok.mp hend with ⟨h, -⟩ | ⟨h, -⟩ | ⟨h, -⟩ | ⟨hlevel, -, -, rfl⟩
  · exact absurd h hconfig
  · exact absurd h hcors
  · exact absurd h hcollection
  · exact ⟨hlevel, rfl⟩

/-- So an element that has children has no end. -/
theorem element_of_readChildren (hlevel : self.parseLevel = 3)
    (hread : readChildren readers () (child :: rest) self = .ok self') :
    self'.element = none := by
  induction rest generalizing child self with
  | nil =>
      obtain ⟨between, hchild, hnil⟩ := Xml.readChildren_cons_eq_ok.mp hread
      cases hnil
      exact (element_of_readChild hlevel hchild).2
  | cons next rest ih =>
      obtain ⟨between, hchild, hrest⟩ := Xml.readChildren_cons_eq_ok.mp hread
      exact ih (element_of_readChild hlevel hchild).1 hrest

/-- What is read as an element of a collection. -/
theorem readChild_item (hlevel : self.parseLevel = 3)
    (hcollection : self.collection = some collection) :
    readChild readers () child self = .ok self' ↔
      IsItem collection child ∧
        self' = { self with elements := self.elements ++ [itemOf child], element := none } := by
  rw [readChild_eq_ok]
  constructor
  · rintro ⟨started, text, read, hstart, hread, hend⟩
    rcases startElement_eq_ok.mp hstart with ⟨-, h, -⟩ | ⟨-, h, -⟩ | ⟨-, h, -⟩ |
      ⟨-, ⟨collection', hcollection', hlegal⟩, rfl⟩
    · omega
    · omega
    · omega
    · obtain rfl := Option.some.inj (hcollection.symm.trans hcollection')
      obtain ⟨hconfig, hcors, hname⟩ := not_collection_of_legal (mem_legalElements hlegal)
      rcases endElement_eq_ok.mp hend with ⟨h, -⟩ | ⟨h, -⟩ | ⟨h, -⟩ | ⟨-, -, helement, rfl⟩
      · exact absurd h hconfig
      · exact absurd h hcors
      · exact absurd h hname
      · have hnone : children child.2 = [] := by
          have hchildren := Xml.readNodes_eq_ok.mp ⟨text, hread⟩
          cases hinner : children child.2 with
          | nil => rfl
          | cons inner rest =>
              rw [hinner] at hchildren
              have hempty := element_of_readChildren (by exact hlevel) hchildren
              rw [hempty] at helement
              cases helement
        rw [Xml.readNodes_of_no_children hnone] at hread
        obtain ⟨rfl, rfl⟩ := Prod.mk.inj (Except.ok.inj hread)
        exact ⟨⟨hlegal, hnone⟩, rfl⟩
  · rintro ⟨⟨hlegal, hnone⟩, rfl⟩
    have hstart : self.startElement child.1 = .ok { self with element := some child.1 } :=
      startElement_eq_ok.mpr (.inr (.inr (.inr ⟨hlevel, ⟨_, hcollection, hlegal⟩, rfl⟩)))
    refine ⟨_, _, _, hstart, Xml.readNodes_of_no_children hnone, ?_⟩
    exact endElement_eq_ok.mpr
      (.inr (.inr (.inr ⟨hlevel, ⟨_, hcollection, hlegal⟩, rfl, rfl⟩)))

/-- What is read as the elements of a collection. -/
theorem readChildren_items {items : List Child} (hlevel : self.parseLevel = 3)
    (hcollection : self.collection = some collection) (helement : self.element = none) :
    readChildren readers () items self = .ok self' ↔
      (∀ item ∈ items, IsItem collection item) ∧
        self' = { self with elements := self.elements ++ items.map itemOf } := by
  refine @Xml.readChildren_collected _ _ _ readers () self' _ (IsItem collection) itemOf
    (fun elements => { self with elements := elements }) self.elements items ?_
  intro before item self'
  rw [readChild_item (by exact hlevel) (by exact hcollection), ← helement]

/-- What is kept of a collection is what it holds: one that has no elements has all of its
character data at its end. -/
theorem terminated_eq {started read : Cors} {text : Text}
    (hread : Xml.readNodes readers () child.2 [] started = .ok (text, read))
    (hitems : ∀ item ∈ children child.2, IsItem child.1 item)
    (helements : read.elements = (children child.2).map itemOf) :
    (child.1, read.terminated child.1 text) = collectionOf child := by
  rw [terminated, collectionOf, helements]
  split
  · rename_i hempty
    have hnone : children child.2 = [] := by
      refine List.eq_nil_iff_forall_not_mem.mpr fun item hitem => ?_
      have hlegal := (hitems item hitem).1
      rw [hempty] at hlegal
      exact absurd hlegal List.not_mem_nil
    rw [Xml.readNodes_of_no_children hnone] at hread
    obtain ⟨rfl, -⟩ := Prod.mk.inj (Except.ok.inj hread)
    rfl
  · rfl

/-- What is read as a collection. -/
theorem readChild_collection (hlevel : self.parseLevel = 2) (hcollection : self.collection = none)
    (helements : self.elements = []) (helement : self.element = none) :
    readChild readers () child self = .ok self' ↔
      IsCollection child ∧
        self' = { self with collections := self.collections ++ [collectionOf child] } := by
  rw [readChild_eq_ok]
  constructor
  · rintro ⟨started, text, read, hstart, hread, hend⟩
    rcases startElement_eq_ok.mp hstart with ⟨-, h, -⟩ | ⟨-, h, -⟩ | ⟨hname, -, rfl⟩ | ⟨h, -⟩
    · omega
    · omega
    · have hchildren := Xml.readNodes_eq_ok.mp ⟨text, hread⟩
      obtain ⟨hitems, rfl⟩ := (readChildren_items rfl rfl (by exact helement)).mp hchildren
      have hkept := terminated_eq hread hitems (by rw [helements]; rfl)
      obtain ⟨hconfig, hcors⟩ := ne_of_isCollectionName hname
      rcases endElement_eq_ok.mp hend with ⟨h, -⟩ | ⟨h, -⟩ | ⟨-, -, -, rfl⟩ | ⟨-, -, h, -⟩
      · exact absurd h hconfig
      · exact absurd h hcors
      · refine ⟨⟨hname, hitems⟩, ?_⟩
        rw [hkept, ← hlevel, ← hcollection, ← helements]
      · rw [helement] at h
        cases h
    · omega
  · rintro ⟨⟨hname, hitems⟩, rfl⟩
    have hstart : self.startElement child.1 =
        .ok { self with parseLevel := 3, collection := some child.1 } :=
      startElement_eq_ok.mpr (.inr (.inr (.inl ⟨hname, hlevel, rfl⟩)))
    have hchildren : readChildren readers () (children child.2)
        { self with parseLevel := 3, collection := some child.1 } = .ok _ :=
      (readChildren_items rfl rfl (by exact helement)).mpr ⟨hitems, rfl⟩
    obtain ⟨text, hread⟩ := (@Xml.readNodes_eq_ok _ _ _ readers () [] _ _ _).mpr hchildren
    have hkept := terminated_eq hread hitems (by rw [helements]; rfl)
    refine ⟨_, text, _, hstart, hread, ?_⟩
    refine endElement_eq_ok.mpr (.inr (.inr (.inl ⟨hname, rfl, rfl, ?_⟩)))
    rw [hkept, ← hlevel, ← hcollection, ← helements]

/-- What is read as a `Cors` element. -/
theorem readChild_cors (hlevel : self.parseLevel = 1) (hcollections : self.collections = [])
    (hcollection : self.collection = none) (helements : self.elements = [])
    (helement : self.element = none) :
    readChild readers () child self = .ok self' ↔
      IsCorsElement child ∧ self' = { self with cors := self.cors ++ [collectionsOf child] } := by
  obtain ⟨cors, collections, elements, level, collection, element⟩ := self
  dsimp only at hlevel hcollections hcollection helements helement
  subst hlevel hcollections hcollection helements helement
  have hcollected : ∀ read : Cors,
      (readChildren readers () (children child.2) ⟨cors, [], [], 2, none, none⟩ = .ok read ↔
        (∀ collection ∈ children child.2, IsCollection collection) ∧
          read = ⟨cors, [] ++ collectionsOf child, [], 2, none, none⟩) := by
    intro read
    refine @Xml.readChildren_collected _ _ _ readers () read _ IsCollection collectionOf
      (fun collections => ⟨cors, collections, [], 2, none, none⟩) [] (children child.2) ?_
    intro before item self'
    exact readChild_collection rfl rfl rfl rfl
  rw [readChild_eq_ok]
  constructor
  · rintro ⟨started, text, read, hstart, hread, hend⟩
    rcases startElement_eq_ok.mp hstart with ⟨-, h, -⟩ | ⟨hname, -, rfl⟩ | ⟨-, h, -⟩ | ⟨h, -⟩
    · cases h
    · obtain ⟨hcors, rfl⟩ := (hcollected read).mp (Xml.readNodes_eq_ok.mp ⟨text, hread⟩)
      rcases endElement_eq_ok.mp hend with ⟨-, h, -⟩ | ⟨-, -, rfl⟩ | ⟨-, h, -⟩ | ⟨h, -⟩
      · cases h
      · exact ⟨⟨hname, hcors⟩, rfl⟩
      · cases h
      · cases h
    · cases h
    · cases h
  · rintro ⟨⟨hname, hcors⟩, rfl⟩
    have hstart : Cors.startElement ⟨cors, [], [], 1, none, none⟩ child.1 =
        .ok ⟨cors, [], [], 2, none, none⟩ :=
      startElement_eq_ok.mpr (.inr (.inl ⟨hname, rfl, rfl⟩))
    obtain ⟨text, hread⟩ := (@Xml.readNodes_eq_ok _ _ _ readers () [] _ _ _).mpr
      ((hcollected _).mpr ⟨hcors, rfl⟩)
    exact ⟨_, text, _, hstart, hread, endElement_eq_ok.mpr (.inr (.inl ⟨hname, rfl, rfl⟩))⟩

/-- What a new `Cors` makes of the root element of a document. -/
theorem readChild_config :
    readChild readers () child init = .ok self' ↔ IsCorsConfig child ∧ self' = configOf child := by
  have hcollected : ∀ read : Cors,
      (readChildren readers () (children child.2) { init with parseLevel := 1 } = .ok read ↔
        (∀ cors ∈ children child.2, IsCorsElement cors) ∧
          read = { init with
            parseLevel := 1, cors := [] ++ (children child.2).map collectionsOf }) := by
    intro read
    refine @Xml.readChildren_collected _ _ _ readers () read _ IsCorsElement collectionsOf
      (fun cors => { init with parseLevel := 1, cors := cors }) [] (children child.2) ?_
    intro before item self'
    exact readChild_cors rfl rfl rfl rfl rfl
  rw [readChild_eq_ok]
  constructor
  · rintro ⟨started, text, read, hstart, hread, hend⟩
    rcases startElement_eq_ok.mp hstart with ⟨hname, -, rfl⟩ | ⟨-, h, -⟩ | ⟨-, h, -⟩ | ⟨h, -⟩
    · obtain ⟨hcors, rfl⟩ := (hcollected read).mp (Xml.readNodes_eq_ok.mp ⟨text, hread⟩)
      rcases endElement_eq_ok.mp hend with ⟨-, -, rfl⟩ | ⟨-, h, -⟩ | ⟨-, h, -⟩ | ⟨h, -⟩
      · exact ⟨⟨hname, hcors⟩, rfl⟩
      · cases h
      · cases h
      · cases h
    · cases h
    · cases h
    · cases h
  · rintro ⟨⟨hname, hcors⟩, rfl⟩
    have hstart : init.startElement child.1 = .ok { init with parseLevel := 1 } :=
      startElement_eq_ok.mpr (.inl ⟨hname, rfl, rfl⟩)
    obtain ⟨text, hread⟩ := (@Xml.readNodes_eq_ok _ _ _ readers () [] _ _ _).mpr
      ((hcollected _).mpr ⟨hcors, rfl⟩)
    exact ⟨_, text, _, hstart, hread, endElement_eq_ok.mpr (.inl ⟨hname, rfl, rfl⟩)⟩

theorem tagged_readers : XmlHandler.Tagged readers fun _ => "root".toList where
  given := by
    intro top name self new self' hstart
    obtain ⟨started, -, heq⟩ := exists_of_map_eq_ok hstart
    cases heq
  own := by
    intro top self self' hstart
    have hrefused : readers.startElement top "root".toList self =
        .error ⟨"Unsupported tag ".toList ++ "root".toList⟩ := rfl
    rw [hrefused] at hstart
    cases hstart

theorem read_eq (name : Text) (inner : List Node) :
    read (Node.element name inner).events =
      (readChild readers () (name, inner) init).mapError .refused :=
  XmlHandler.checkedParse_element tagged_readers rfl name inner init

theorem read_eq_ok {inner : List Node} :
    read (Node.element name inner).events = .ok self ↔
      IsCorsConfig (name, inner) ∧ self = configOf (name, inner) := by
  rw [read_eq, ← readChild_config]
  cases readChild readers () (name, inner) init with
  | error e => simp [Except.mapError]
  | ok self' => simp [Except.mapError]

/-- A document is read exactly if it is of the grammar, and then as what it describes; all
others are refused. -/
theorem read_iff_isCorsConfig (name : Text) (inner : List Node) :
    (∀ self, read (Node.element name inner).events = .ok self ↔
      IsCorsConfig (name, inner) ∧ self = configOf (name, inner)) ∧
    ((∃ error, read (Node.element name inner).events = .error (.refused error)) ↔
      ¬IsCorsConfig (name, inner)) := by
  refine ⟨fun self => read_eq_ok, ?_⟩
  cases hread : readChild readers () (name, inner) init with
  | error e =>
      have hnot : ¬IsCorsConfig (name, inner) := by
        intro hconfig
        rw [readChild_config.mpr ⟨hconfig, rfl⟩] at hread
        cases hread
      exact iff_of_true ⟨e, by rw [read_eq, hread]; rfl⟩ hnot
  | ok self =>
      refine iff_of_false ?_ (not_not.mpr (readChild_config.mp hread).1)
      rintro ⟨error, herror⟩
      rw [read_eq, hread] at herror
      cases herror

end Cors

end Boto.GS
